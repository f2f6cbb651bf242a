import SilverNetwork.Verification.ErrorRecovery.Backoff

/-! What the jitter does to a delay. It is a remainder by a tenth of the delay, so there must be
a tenth; and it goes up as well as down, past the maximum, but not as far as the delay of the
attempt after it, which is the one that is waited for. -/

namespace SilverNetwork

namespace ErrorRecovery

variable {b b' : ExponentialBackoff} {initialMs maxMs : UInt64} {calls : List BackoffCall}
  {wall : SystemTime} {now : Instant} {duration : Duration} {k : ℕ}

/-! ## The remainder -/

/-- A backoff gives a delay exactly where it has one of ten milliseconds to give. -/
theorem nextBackoff_isSome_iff
    (h : (backoffMachine ExponentialBackoff.jitter).Run (.new initialMs maxMs) calls b)
    (wall : SystemTime) (now : Instant) : (b.nextBackoff wall now).isSome ↔
      10 ≤ maxMs.toNat ∧ 10 ≤ initialMs.toNat * 2 ^ attempts calls := by
  rw [ExponentialBackoff.nextBackoff, Option.isSome_map, jitteredDelay_isSome_iff,
    (run_follows h).toNat_delayMs, nominal, Nat.le_min]

theorem nextBackoff_isSome_iff_plain :
    ((ExponentialBackoff.new 10 300000).nextBackoff 0 0).isSome :=
  (nextBackoff_isSome_iff .start 0 0).mpr (by decide)

/-- From a delay of one millisecond there is no tenth to take the remainder by. -/
theorem nextBackoff_panics : ¬ ∀ (initialMs maxMs : UInt64) (calls : List BackoffCall)
    (b : ExponentialBackoff),
    (backoffMachine ExponentialBackoff.jitter).Run (.new initialMs maxMs) calls b →
      ∀ wall now, (b.nextBackoff wall now).isSome := by
  intro hall
  have hsome := hall 1 300000 [] _ .start 0 0
  revert hsome
  decide

/-! ## The maximum -/

/-- The delay of an attempt, in terms of the exponential law and the clock. -/
theorem nextBackoff_eq_some
    (h : (backoffMachine ExponentialBackoff.jitter).Run (.new initialMs maxMs) calls b)
    (hnext : b.nextBackoff wall now = some (duration, b')) :
    ∃ delay : ℕ, duration = delay * millisecond ∧
      delay = min (2 ^ 64 - 1) (nominal initialMs maxMs (attempts calls) -
        floatTenth (nominal initialMs maxMs (attempts calls)) / 2 +
        nanos wall % floatTenth (nominal initialMs maxMs (attempts calls))) ∧
      floatTenth (nominal initialMs maxMs (attempts calls)) ≠ 0 ∧
      b'.Follows initialMs maxMs (attempts calls + 1) ∧ b'.lastBackoff = some now := by
  have hfollows := run_follows h
  rw [ExponentialBackoff.nextBackoff_eq] at hnext
  obtain ⟨delay, hdelay, hduration, hpost⟩ := nextBackoffBy_eq_some hnext
  obtain ⟨hpositive, hvalue⟩ := jitteredDelayBy_eq_some_iff.mp hdelay
  rw [toNat_jitter, hfollows.toNat_delayMs] at hpositive hvalue
  rw [hpost]
  exact ⟨delay.toNat, hduration, hvalue, hpositive, hfollows.advance (some now), rfl⟩

/-- A delay keeps to the maximum exactly where the jitter goes up by no more than the room that
the exponential law leaves below it. -/
theorem nextBackoff_le_max_iff
    (h : (backoffMachine ExponentialBackoff.jitter).Run (.new initialMs maxMs) calls b)
    (hnext : b.nextBackoff wall now = some (duration, b')) :
    duration ≤ maxMs.toNat * millisecond ↔ maxMs.toNat = 2 ^ 64 - 1 ∨
      nanos wall % floatTenth (nominal initialMs maxMs (attempts calls)) ≤
        floatTenth (nominal initialMs maxMs (attempts calls)) / 2 +
          (maxMs.toNat - nominal initialMs maxMs (attempts calls)) := by
  obtain ⟨delay, rfl, hdelay, _, _, _⟩ := nextBackoff_eq_some h hnext
  have htenth := floatTenth_le (nominal initialMs maxMs (attempts calls))
  have hnominal := nominal_le initialMs maxMs (attempts calls)
  have hmax := maxMs.toNat_lt
  rw [Nat.mul_le_mul_right_iff (by decide)]
  omega

theorem nextBackoff_le_max_iff_plain : ∃ duration b',
    (ExponentialBackoff.new 1000 1000).nextBackoff 20 0 = some (duration, b') ∧
      duration ≤ (1000 : UInt64).toNat * millisecond := by
  have hrun : (backoffMachine ExponentialBackoff.jitter).Run (.new 1000 1000) []
      (.new 1000 1000) := .start
  have hnext : (ExponentialBackoff.new 1000 1000).nextBackoff 20 0 =
      some (970000000, ⟨1000, 1000, 1, some 0⟩) := rfl
  exact ⟨_, _, hnext, (nextBackoff_le_max_iff hrun hnext).mpr (by decide)⟩

/-- At the maximum, half of the clock's readings send the delay past it. -/
theorem nextBackoff_exceeds_max : ¬ ∀ (initialMs maxMs : UInt64) (calls : List BackoffCall)
    (b b' : ExponentialBackoff) (wall : SystemTime) (now : Instant) (duration : Duration),
    (backoffMachine ExponentialBackoff.jitter).Run (.new initialMs maxMs) calls b →
      b.nextBackoff wall now = some (duration, b') → duration ≤ maxMs.toNat * millisecond := by
  intro hall
  have hle := hall 1000 1000 [] _ _ 99 0 _ .start rfl
  revert hle
  decide

/-! ## The wait -/

theorem isReadyToRetry_iff (h : b.Follows initialMs maxMs k) (hlast : b.lastBackoff = some now)
    (time : Instant) : b.isReadyToRetry time ↔
      nominal initialMs maxMs k * millisecond ≤ time - now := by
  simp [ExponentialBackoff.isReadyToRetry, hlast, h.toNat_delayMs]

/-- One waiting time is enough from some time on exactly where it is no less than the other. -/
theorem forall_le_sub_iff (now announced wanted : ℕ) :
    (∀ time, now + announced ≤ time → wanted ≤ time - now) ↔ wanted ≤ announced := by
  constructor
  · intro h
    have hthen := h (now + announced) (Nat.le_refl _)
    omega
  · intro h time htime
    omega

/-- Below the maximum the jitter never doubles a delay. -/
theorem announced_enough_iff {maximum delay tenth rise announced : ℕ} (hmax : maximum < 2 ^ 64)
    (hbelow : delay < maximum) (htenth : tenth ≤ delay) (hrise : rise < tenth)
    (hannounced : announced = min (2 ^ 64 - 1) (delay - tenth / 2 + rise)) :
    min maximum (2 * delay) ≤ max announced delay ↔ maximum + tenth / 2 ≤ delay + rise := by
  omega

/-- The wait that a backoff announces is enough exactly where the delay of the attempt after
it is no longer: at the maximum, or so close to it that the jitter makes up for the rest. -/
theorem isReadyToRetry_after_delay_iff
    (h : (backoffMachine ExponentialBackoff.jitter).Run (.new initialMs maxMs) calls b)
    (hnext : b.nextBackoff wall now = some (duration, b')) :
    (∀ time, now + max duration (nominal initialMs maxMs (attempts calls) * millisecond) ≤ time →
      b'.isReadyToRetry time) ↔
      maxMs.toNat ≤ initialMs.toNat * 2 ^ attempts calls ∨
        maxMs.toNat + floatTenth (initialMs.toNat * 2 ^ attempts calls) / 2 ≤
          initialMs.toNat * 2 ^ attempts calls +
            nanos wall % floatTenth (initialMs.toNat * 2 ^ attempts calls) := by
  obtain ⟨delay, rfl, hdelay, htenth, hfollows, hlast⟩ := nextBackoff_eq_some h hnext
  have hmax := maxMs.toNat_lt
  simp only [isReadyToRetry_iff hfollows hlast]
  rw [forall_le_sub_iff, Nat.mul_max_mul_right, Nat.mul_le_mul_right_iff (by decide)]
  by_cases hcapped : maxMs.toNat ≤ initialMs.toNat * 2 ^ attempts calls
  · have hthis : nominal initialMs maxMs (attempts calls) = maxMs.toNat :=
      Nat.min_eq_left hcapped
    have hnext := nominal_le initialMs maxMs (attempts calls + 1)
    have henough := Nat.le_max_right delay maxMs.toNat
    rw [hthis]
    simp [hcapped, Nat.le_trans hnext henough]
  · have hbelow : nominal initialMs maxMs (attempts calls) < maxMs.toNat := by
      unfold nominal
      omega
    have htenth_le := floatTenth_le (nominal initialMs maxMs (attempts calls))
    have hrise := Nat.mod_lt (nanos wall) (Nat.pos_of_ne_zero htenth)
    rw [nominal_succ hbelow, announced_enough_iff hmax hbelow htenth_le hrise hdelay,
      ← nominal_of_lt hbelow]
    simp [Nat.not_le.mpr hbelow]

theorem isReadyToRetry_after_delay_iff_plain : ∃ duration b',
    (ExponentialBackoff.new 1000 1000).nextBackoff 20 0 = some (duration, b') ∧
      ∀ time, 0 + max duration (nominal 1000 1000 (attempts []) * millisecond) ≤ time →
        b'.isReadyToRetry time := by
  have hrun : (backoffMachine ExponentialBackoff.jitter).Run (.new 1000 1000) []
      (.new 1000 1000) := .start
  have hnext : (ExponentialBackoff.new 1000 1000).nextBackoff 20 0 =
      some (970000000, ⟨1000, 1000, 1, some 0⟩) := rfl
  exact ⟨_, _, hnext, (isReadyToRetry_after_delay_iff hrun hnext).mpr (by decide)⟩

/-- After the first delay of about a second, two seconds are waited for. -/
theorem isReadyToRetry_too_early : ¬ ∀ (initialMs maxMs : UInt64) (calls : List BackoffCall)
    (b b' : ExponentialBackoff) (wall : SystemTime) (now : Instant) (duration : Duration),
    (backoffMachine ExponentialBackoff.jitter).Run (.new initialMs maxMs) calls b →
      b.nextBackoff wall now = some (duration, b') →
        ∀ time, now + max duration (nominal initialMs maxMs (attempts calls) * millisecond) ≤
          time → b'.isReadyToRetry time := by
  intro hall
  have hready := hall 1000 300000 [] _ _ 99 0 _ .start rfl 1500000000 (by decide)
  revert hready
  decide

/-! ## The band -/

/-- A delay lies about its nominal one by half of the tenth. -/
def InBand (delay n : ℕ) : Prop :=
  n - n / 10 / 2 ≤ delay ∧ delay < n + (n / 10 + 1) / 2

theorem inBand_of_tenth {delay n rise : ℕ} (hn : n < 2 ^ 64) (hrise : rise < n / 10)
    (hdelay : delay = min (2 ^ 64 - 1) (n - n / 10 / 2 + rise)) : InBand delay n := by
  unfold InBand
  omega

theorem nextBackoffBy_inBand {b : ExponentialBackoff}
    (hfollows : b.Follows initialMs maxMs k)
    (hnext : b.nextBackoffBy wholeTenth wall now = some (duration, b')) :
    ∃ delay : ℕ, duration = delay * millisecond ∧ InBand delay (nominal initialMs maxMs k) := by
  obtain ⟨delay, hdelay, hduration, _⟩ := nextBackoffBy_eq_some hnext
  obtain ⟨hpositive, hvalue⟩ := jitteredDelayBy_eq_some_iff.mp hdelay
  have htenth : (wholeTenth b.delayMs).toNat = nominal initialMs maxMs k / 10 := by
    rw [wholeTenth, UInt64.toNat_div, hfollows.toNat_delayMs]
    rfl
  rw [htenth, hfollows.toNat_delayMs] at hvalue
  rw [htenth] at hpositive
  exact ⟨delay.toNat, hduration, inBand_of_tenth (nominal_lt initialMs maxMs k)
    (Nat.mod_lt _ (Nat.pos_of_ne_zero hpositive)) hvalue⟩

theorem nextBackoffBy_returns (hfollows : b.Follows initialMs maxMs k)
    (hdelay : 10 ≤ nominal initialMs maxMs k) (wall : SystemTime) (now : Instant) :
    ∃ duration b', b.nextBackoffBy wholeTenth wall now = some (duration, b') := by
  have hpositive : wholeTenth b.delayMs ≠ 0 := by
    rw [Ne, ← UInt64.toNat_inj, wholeTenth, UInt64.toNat_div, hfollows.toNat_delayMs]
    simp
    omega
  simp [ExponentialBackoff.nextBackoffBy, ExponentialBackoff.jitteredDelayBy, hpositive]

theorem le_nominal (hinitial : 10 ≤ initialMs.toNat) (hmax : 10 ≤ maxMs.toNat) (k : ℕ) :
    10 ≤ nominal initialMs maxMs k := by
  have hgrow := Nat.le_mul_of_pos_right initialMs.toNat (Nat.two_pow_pos k)
  unfold nominal
  omega

/-- Each delay lies within ten percent of the exponential law, and below the maximum every
delay is longer than the one of the attempt before it, whatever the clocks read. -/
theorem nextBackoff_within_band (hinitial : 10 ≤ initialMs.toNat) (hmax : 10 ≤ maxMs.toNat)
    (h : (backoffMachine wholeTenth).Run (.new initialMs maxMs) calls b) (wall : SystemTime)
    (now : Instant) :
    ∃ delay : ℕ, ∃ next, b.nextBackoffBy wholeTenth wall now = some (delay * millisecond, next) ∧
      9 * nominal initialMs maxMs (attempts calls) ≤ 10 * delay ∧
      10 * delay ≤ 11 * nominal initialMs maxMs (attempts calls) ∧
      ∀ {calls' : List BackoffCall} {b' next' : ExponentialBackoff} {wall' : SystemTime}
        {now' : Instant} {duration' : Duration},
        (backoffMachine wholeTenth).Run (.new initialMs maxMs) calls' b' →
        attempts calls' = attempts calls + 1 →
        nominal initialMs maxMs (attempts calls) < maxMs.toNat →
        nominal initialMs maxMs (attempts calls + 1) < maxMs.toNat →
        b'.nextBackoffBy wholeTenth wall' now' = some (duration', next') →
        delay * millisecond < duration' := by
  have hnominal := le_nominal hinitial hmax (attempts calls)
  obtain ⟨duration, next, hnext⟩ := nextBackoffBy_returns (run_follows h) hnominal wall now
  obtain ⟨delay, rfl, hlow, hhigh⟩ := nextBackoffBy_inBand (run_follows h) hnext
  refine ⟨delay, next, hnext, by omega, by omega, ?_⟩
  intro calls' b' next' wall' now' duration' h' hattempts hbelow hbelow' hnext'
  obtain ⟨delay', rfl, hlow', hhigh'⟩ := nextBackoffBy_inBand (run_follows h') hnext'
  have hdouble := nominal_succ hbelow
  rw [hattempts] at hlow'
  exact Nat.mul_lt_mul_of_pos_right (by omega) (by decide)

theorem nextBackoff_within_band_plain :
    ∃ delay : ℕ, ∃ next, (ExponentialBackoff.new 1000 300000).nextBackoffBy wholeTenth 7 0 =
      some (delay * millisecond, next) ∧ 9000 ≤ 10 * delay ∧ 10 * delay ≤ 11000 := by
  have hrun : (backoffMachine wholeTenth).Run (.new 1000 300000) [] (.new 1000 300000) := .start
  obtain ⟨delay, next, hnext, hlow, hhigh, _⟩ :=
    nextBackoff_within_band (by decide) (by decide) hrun 7 0
  exact ⟨delay, next, hnext, hlow, hhigh⟩

end ErrorRecovery

end SilverNetwork
