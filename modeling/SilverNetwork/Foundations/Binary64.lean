import Mathlib.Data.Int.Log
import Mathlib.Data.Rat.Floor
import Mathlib.Data.UInt

/-! Natural numbers as binary64 floats. A natural number is rounded to its 53 leading bits, a
tie going to the even one; a product with a dyadic fraction, or a quotient of two such floats, is
rounded once more. -/

namespace SilverNetwork

namespace Binary64

/-- The nearest multiple of `unit`; of two that are as near, the even one. -/
def roundTo (unit n : ℕ) : ℕ :=
  if unit < 2 * (n % unit) ∨ unit = 2 * (n % unit) ∧ n / unit % 2 = 1 then (n / unit + 1) * unit
  else n / unit * unit

/-- The distance between neighbouring floats at `n`, for a float that is a whole number. -/
def unitAt (n : ℕ) : ℕ := 2 ^ (n.log2 - 52)

/-- The float nearest to a natural number. -/
def round (n : ℕ) : ℕ := roundTo (unitAt n) n

/-- The whole part of a float times the float `significand / 2 ^ scale`. The product is rounded
at its own magnitude, so the scale plays no part in it. -/
def truncMul (significand scale n : ℕ) : ℕ := round (round n * significand) / 2 ^ scale

theorem div_mul_le_roundTo (unit n : ℕ) : n / unit * unit ≤ roundTo unit n := by
  unfold roundTo
  split
  · exact Nat.mul_le_mul_right unit (Nat.le_succ _)
  · exact Nat.le_refl _

theorem roundTo_le (unit n : ℕ) : roundTo unit n ≤ n + unit := by
  have hdown := Nat.div_mul_le_self n unit
  unfold roundTo
  split
  · rw [Nat.succ_mul]
    exact Nat.add_le_add_right hdown unit
  · exact Nat.le_add_right_of_le hdown

/-- Rounding does not go below a multiple of the unit. -/
theorem le_roundTo {unit n m : ℕ} (hunit : unit ∣ m) (h : m ≤ n) : m ≤ roundTo unit n := by
  obtain ⟨c, rfl⟩ := hunit
  calc unit * c ≤ n / unit * unit := by
        rw [Nat.mul_comm]
        cases Nat.eq_zero_or_pos unit with
        | inl hzero => simp [hzero]
        | inr hpos =>
            exact Nat.mul_le_mul_right unit
              ((Nat.le_div_iff_mul_le hpos).mpr (Nat.mul_comm unit c ▸ h))
    _ ≤ roundTo unit n := div_mul_le_roundTo unit n

theorem unitAt_dvd_pow {k n : ℕ} (h : n < 2 ^ (k + 53)) : unitAt n ∣ 2 ^ k := by
  apply Nat.pow_dvd_pow
  by_cases hn : n = 0
  · simp [hn]
  · have hlog := (Nat.log2_lt hn).mpr h
    omega

/-- Rounding no more than doubles a number. -/
theorem round_le (n : ℕ) : round n ≤ 2 * n := by
  by_cases hn : n = 0
  · simp [hn, round, roundTo, unitAt]
  · have hunit : unitAt n ≤ n :=
      Nat.le_trans (Nat.pow_le_pow_right (by decide) (Nat.sub_le _ _)) (Nat.log2_self_le hn)
    have hround := roundTo_le (unitAt n) n
    unfold round
    omega

/-- What has at most 53 bits is a float. -/
theorem round_of_lt {n : ℕ} (h : n < 2 ^ 53) : round n = n := by
  have hunit : unitAt n = 1 := by
    by_cases hn : n = 0
    · simp [unitAt, hn]
    · have hlog := (Nat.log2_lt hn).mpr h
      have hshift : n.log2 - 52 = 0 := by omega
      rw [unitAt, hshift, Nat.pow_zero]
  simp [round, roundTo, hunit, Nat.mod_one]

/-- Rounding does not go below a power of two. -/
theorem pow_le_round {k n : ℕ} (h : 2 ^ k ≤ n) : 2 ^ k ≤ round n := by
  by_cases hsmall : n < 2 ^ 53
  · rw [round_of_lt hsmall]
    exact h
  · have hn : n ≠ 0 := by
      intro hzero
      simp [hzero] at hsmall
    have hk : k ≤ n.log2 := (Nat.le_log2 hn).mpr h
    have hlog : 53 ≤ n.log2 := (Nat.le_log2 hn).mpr (Nat.le_of_not_lt hsmall)
    have hleading : 2 ^ 52 ≤ n / unitAt n := by
      rw [unitAt, Nat.le_div_iff_mul_le (Nat.two_pow_pos _), ← Nat.pow_add]
      have hsplit : 52 + (n.log2 - 52) = n.log2 := by omega
      rw [hsplit]
      exact Nat.log2_self_le hn
    calc 2 ^ k ≤ 2 ^ n.log2 := Nat.pow_le_pow_right (by decide) hk
      _ = 2 ^ 52 * unitAt n := by
        rw [unitAt, ← Nat.pow_add]
        congr 1
        omega
      _ ≤ n / unitAt n * unitAt n := Nat.mul_le_mul_right _ hleading
      _ ≤ round n := div_mul_le_roundTo _ _

/-- A number times a fraction below one quarter does not grow. -/
theorem truncMul_le {significand scale : ℕ} (n : ℕ) (h : 4 * significand ≤ 2 ^ scale) :
    truncMul significand scale n ≤ n := by
  apply Nat.div_le_of_le_mul
  calc round (round n * significand) ≤ 2 * (round n * significand) := round_le _
    _ ≤ 2 * (2 * n * significand) :=
      Nat.mul_le_mul_left 2 (Nat.mul_le_mul_right significand (round_le n))
    _ = n * (4 * significand) := by
      rw [Nat.mul_assoc 2 n, ← Nat.mul_assoc 2 2, Nat.mul_left_comm]
    _ ≤ n * 2 ^ scale := Nat.mul_le_mul_left n h
    _ = 2 ^ scale * n := Nat.mul_comm _ _

/-- The product is at least one where the exact product of the rounded number is. -/
theorem truncMul_pos {significand scale n : ℕ} (h : 2 ^ scale ≤ round n * significand) :
    0 < truncMul significand scale n :=
  Nat.div_pos (pow_le_round h) (Nat.two_pow_pos scale)

/-- Rounding leaves something of every number but zero. -/
theorem round_eq_zero_iff {n : ℕ} : round n = 0 ↔ n = 0 := by
  constructor
  · intro hzero
    by_contra hn
    have hone : 2 ^ 0 ≤ round n := pow_le_round (by simpa using Nat.one_le_iff_ne_zero.mpr hn)
    omega
  · rintro rfl
    exact round_of_lt (by decide)

/-! ## Quotients -/

/-- The float nearest to a positive rational number, neither so small nor so large that its
exponent does not fit. -/
def nearest (q : ℚ) : ℚ :=
  let unit := (2 : ℚ) ^ (Int.log 2 q - 52)
  let significand := ⌊q / unit⌋
  let rest := q / unit - significand
  if 1 / 2 < rest ∨ rest = 1 / 2 ∧ significand % 2 = 1 then (significand + 1) * unit
  else significand * unit

/-- A float that is not negative. -/
inductive Value where
  | finite (value : ℚ)
  | infinite
  | nan
  deriving DecidableEq

/-- The quotient of two floats that are whole numbers. -/
def div (a b : ℕ) : Value :=
  if b = 0 then if a = 0 then .nan else .infinite else .finite (nearest (a / b))

/-- `f64::min` with a number, which is also returned for what is not a number. -/
def Value.min : Value → ℚ → Value
  | .finite value, bound => .finite (Min.min value bound)
  | _, bound => .finite bound

theorem nearest_nonneg {q : ℚ} (h : 0 ≤ q) : 0 ≤ nearest q := by
  have hunit : (0 : ℚ) < 2 ^ (Int.log 2 q - 52) := zpow_pos (by decide) _
  have hfloor : (0 : ℚ) ≤ ⌊q / 2 ^ (Int.log 2 q - 52)⌋ := by
    exact_mod_cast Int.floor_nonneg.mpr (div_nonneg h hunit.le)
  unfold nearest
  dsimp only
  split
  · exact mul_nonneg (add_nonneg hfloor zero_le_one) hunit.le
  · exact mul_nonneg hfloor hunit.le

/-- A quotient that is cut at a bound lies between zero and the bound. -/
theorem div_min_mem (a b : ℕ) {bound : ℚ} (h : 0 ≤ bound) :
    ∃ value, (div a b).min bound = .finite value ∧ 0 ≤ value ∧ value ≤ bound := by
  unfold div
  split
  · split
    · exact ⟨bound, rfl, h, le_refl bound⟩
    · exact ⟨bound, rfl, h, le_refl bound⟩
  · have hquotient : (0 : ℚ) ≤ a / b := div_nonneg a.cast_nonneg b.cast_nonneg
    exact ⟨_, rfl, le_min (nearest_nonneg hquotient) h, min_le_right _ _⟩

end Binary64

end SilverNetwork
