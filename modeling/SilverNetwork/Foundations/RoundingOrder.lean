import Mathlib.Tactic.Linarith
import Mathlib.Tactic.Ring
import SilverNetwork.Foundations.Binary64

/-! That rounding keeps the order. Two numbers with the same unit are rounded to multiples of it, and
a power of two, which is a float, lies between two numbers with different units. -/

namespace SilverNetwork

namespace Binary64

/-! ## Natural numbers -/

theorem roundTo_mul (unit c : ℕ) : roundTo unit (c * unit) = c * unit := by
  cases Nat.eq_zero_or_pos unit with
  | inl hzero => simp [roundTo, hzero]
  | inr hpos =>
      have hexact : ¬(unit < 2 * (c * unit % unit) ∨
          unit = 2 * (c * unit % unit) ∧ c * unit / unit % 2 = 1) := by
        rw [Nat.mul_mod_left]
        omega
      rw [roundTo, if_neg hexact, Nat.mul_div_cancel c hpos]

theorem roundTo_le_succ (unit n : ℕ) : roundTo unit n ≤ (n / unit + 1) * unit := by
  unfold roundTo
  split
  · exact Nat.le_refl _
  · exact Nat.mul_le_mul_right unit (Nat.le_succ _)

theorem roundTo_mono (unit : ℕ) {n m : ℕ} (h : n ≤ m) : roundTo unit n ≤ roundTo unit m := by
  have hquotient : n / unit ≤ m / unit := Nat.div_le_div_right h
  cases Nat.lt_or_eq_of_le hquotient with
  | inl hlt =>
      calc roundTo unit n ≤ (n / unit + 1) * unit := roundTo_le_succ unit n
        _ ≤ m / unit * unit := Nat.mul_le_mul_right unit hlt
        _ ≤ roundTo unit m := div_mul_le_roundTo unit m
  | inr heq =>
      have hn := Nat.div_add_mod n unit
      have hm := Nat.div_add_mod m unit
      rw [heq] at hn
      unfold roundTo
      rw [heq]
      split
      · rename_i hup
        have hup' : unit < 2 * (m % unit) ∨ unit = 2 * (m % unit) ∧ m / unit % 2 = 1 := by
          omega
        rw [if_pos hup']
      · split
        · exact Nat.mul_le_mul_right unit (Nat.le_succ _)
        · exact Nat.le_refl _

theorem unitAt_dvd_succ (n : ℕ) : unitAt n ∣ 2 ^ (n.log2 + 1) :=
  Nat.pow_dvd_pow 2 (by omega)

theorem round_le_pow (n : ℕ) : round n ≤ 2 ^ (n.log2 + 1) := by
  obtain ⟨c, hc⟩ := unitAt_dvd_succ n
  calc round n ≤ roundTo (unitAt n) (2 ^ (n.log2 + 1)) := by
        apply roundTo_mono
        exact Nat.le_of_lt Nat.lt_log2_self
    _ = 2 ^ (n.log2 + 1) := by rw [hc, Nat.mul_comm, roundTo_mul]

theorem round_mono {n m : ℕ} (h : n ≤ m) : round n ≤ round m := by
  by_cases hn : n = 0
  · rw [hn, round_eq_zero_iff.mpr rfl]
    exact Nat.zero_le _
  · have hm : m ≠ 0 := by omega
    have hlog : n.log2 ≤ m.log2 := (Nat.le_log2 hm).mpr (Nat.le_trans (Nat.log2_self_le hn) h)
    cases Nat.lt_or_eq_of_le hlog with
    | inl hlt =>
        calc round n ≤ 2 ^ (n.log2 + 1) := round_le_pow n
          _ ≤ 2 ^ m.log2 := Nat.pow_le_pow_right (by decide) hlt
          _ ≤ round m := pow_le_round (Nat.log2_self_le hm)
    | inr heq =>
        have hunit : unitAt n = unitAt m := by rw [unitAt, unitAt, heq]
        rw [round, round, hunit]
        exact roundTo_mono _ h

/-! ## Rational numbers -/

/-- The nearest whole number; of two that are as near, the even one. -/
def halfEven (y : ℚ) : ℤ :=
  if 1 / 2 < y - ⌊y⌋ ∨ y - ⌊y⌋ = 1 / 2 ∧ ⌊y⌋ % 2 = 1 then ⌊y⌋ + 1 else ⌊y⌋

/-- The distance between neighbouring floats at `q`. -/
def ulp (q : ℚ) : ℚ := 2 ^ (Int.log 2 q - 52)

theorem ulp_pos (q : ℚ) : 0 < ulp q := zpow_pos (by decide) _

theorem nearest_eq (q : ℚ) : nearest q = halfEven (q / ulp q) * ulp q := by
  unfold nearest halfEven ulp
  dsimp only
  split
  · rw [Int.cast_add, Int.cast_one]
  · rfl

theorem floor_le_halfEven (y : ℚ) : ⌊y⌋ ≤ halfEven y := by
  unfold halfEven
  split
  · exact Int.le_add_one (Int.le_refl _)
  · exact Int.le_refl _

theorem halfEven_le_succ (y : ℚ) : halfEven y ≤ ⌊y⌋ + 1 := by
  unfold halfEven
  split
  · exact Int.le_refl _
  · exact Int.le_add_one (Int.le_refl _)

theorem halfEven_intCast (k : ℤ) : halfEven k = k := by
  simp [halfEven]

theorem halfEven_mono {y y' : ℚ} (h : y ≤ y') : halfEven y ≤ halfEven y' := by
  cases (Int.floor_mono h).lt_or_eq with
  | inl hlt =>
      calc halfEven y ≤ ⌊y⌋ + 1 := halfEven_le_succ y
        _ ≤ ⌊y'⌋ := hlt
        _ ≤ halfEven y' := floor_le_halfEven y'
  | inr heq =>
      by_cases hup : 1 / 2 < y - ⌊y⌋ ∨ y - ⌊y⌋ = 1 / 2 ∧ ⌊y⌋ % 2 = 1
      · have hup' : 1 / 2 < y' - ⌊y'⌋ ∨ y' - ⌊y'⌋ = 1 / 2 ∧ ⌊y'⌋ % 2 = 1 := by
          rw [← heq]
          cases hup with
          | inl habove => exact .inl (by linarith)
          | inr htie =>
              cases h.lt_or_eq with
              | inl hlt => exact .inl (by linarith [htie.1])
              | inr hsame => exact .inr (hsame ▸ htie)
        rw [halfEven, halfEven, if_pos hup, if_pos hup', heq]
      · calc halfEven y = ⌊y⌋ := if_neg hup
          _ = ⌊y'⌋ := heq
          _ ≤ halfEven y' := floor_le_halfEven y'

theorem nearest_zero : nearest 0 = 0 := by
  rw [nearest_eq, zero_div]
  simp [halfEven]

/-- A multiple of its own unit is a float. -/
theorem nearest_of_multiple {q : ℚ} {k : ℤ} (h : q = k * ulp q) : nearest q = q := by
  have hquotient : q / ulp q = k := by
    rw [div_eq_iff (ulp_pos q).ne']
    exact h
  rw [nearest_eq, hquotient, halfEven_intCast]
  exact h.symm

theorem zpow_mul_ulp (k : ℕ) (q : ℚ) :
    ((2 ^ k : ℤ) : ℚ) * ulp q = 2 ^ (Int.log 2 q + (k - 52 : ℤ)) := by
  rw [ulp, Int.cast_pow, Int.cast_ofNat, ← zpow_natCast, ← zpow_add₀ (by norm_num)]
  congr 1
  ring

/-- Rounding does not go below the leading bit. -/
theorem zpow_log_le_nearest {q : ℚ} (h : 0 < q) : (2 : ℚ) ^ Int.log 2 q ≤ nearest q := by
  have hleading : ((2 ^ 52 : ℤ) : ℚ) ≤ q / ulp q := by
    rw [le_div_iff₀ (ulp_pos q), zpow_mul_ulp]
    simpa using Int.zpow_log_le_self (R := ℚ) (b := 2) (by decide) h
  calc (2 : ℚ) ^ Int.log 2 q = ((2 ^ 52 : ℤ) : ℚ) * ulp q := by
        rw [zpow_mul_ulp]
        simp
    _ ≤ halfEven (q / ulp q) * ulp q := by
        apply mul_le_mul_of_nonneg_right _ (ulp_pos q).le
        rw [Int.cast_le, ← halfEven_intCast (2 ^ 52)]
        exact halfEven_mono hleading
    _ = nearest q := (nearest_eq q).symm

/-- Rounding does not go above the next power of two. -/
theorem nearest_le_zpow_succ (q : ℚ) : nearest q ≤ 2 ^ (Int.log 2 q + 1) := by
  have hbound : q / ulp q ≤ ((2 ^ 53 : ℤ) : ℚ) := by
    rw [div_le_iff₀ (ulp_pos q), zpow_mul_ulp]
    simpa using (Int.lt_zpow_succ_log_self (R := ℚ) (b := 2) (by decide) q).le
  calc nearest q = halfEven (q / ulp q) * ulp q := nearest_eq q
    _ ≤ ((2 ^ 53 : ℤ) : ℚ) * ulp q := by
        apply mul_le_mul_of_nonneg_right _ (ulp_pos q).le
        rw [Int.cast_le, ← halfEven_intCast (2 ^ 53)]
        exact halfEven_mono hbound
    _ = 2 ^ (Int.log 2 q + 1) := by
        rw [zpow_mul_ulp]
        norm_num

theorem nearest_mono {q q' : ℚ} (hq : 0 ≤ q) (h : q ≤ q') : nearest q ≤ nearest q' := by
  cases hq.lt_or_eq with
  | inr hzero =>
      rw [← hzero, nearest_zero]
      exact nearest_nonneg (hq.trans h)
  | inl hpos =>
      cases (Int.log_mono_right (b := 2) hpos h).lt_or_eq with
      | inl hlt =>
          calc nearest q ≤ 2 ^ (Int.log 2 q + 1) := nearest_le_zpow_succ q
            _ ≤ (2 : ℚ) ^ Int.log 2 q' := zpow_le_zpow_right₀ one_le_two hlt
            _ ≤ nearest q' := zpow_log_le_nearest (hpos.trans_le h)
      | inr heq =>
          have hulp : ulp q = ulp q' := by rw [ulp, ulp, heq]
          rw [nearest_eq, nearest_eq, hulp]
          apply mul_le_mul_of_nonneg_right _ (ulp_pos q').le
          rw [Int.cast_le]
          exact halfEven_mono (div_le_div_of_nonneg_right h (ulp_pos q').le)

/-! ## Quotients of whole numbers -/

/-- A quotient that is cut at a bound grows with its numerator, also when it divides by zero. -/
theorem div_min_mono {a a' : ℕ} (h : a ≤ a') (b : ℕ) (bound : ℚ) :
    ∃ value value', (div a b).min bound = .finite value ∧ (div a' b).min bound = .finite value' ∧
      value ≤ value' := by
  have hzero : ∀ n, (div n 0).min bound = .finite bound := by
    intro n
    rw [div, if_pos rfl]
    split <;> rfl
  by_cases hb : b = 0
  · subst hb
    exact ⟨bound, bound, hzero a, hzero a', le_refl bound⟩
  · refine ⟨min (nearest (a / b)) bound, min (nearest (a' / b)) bound, ?_, ?_, ?_⟩
    · rw [div, if_neg hb]
      rfl
    · rw [div, if_neg hb]
      rfl
    · apply min_le_min_right
      apply nearest_mono (div_nonneg a.cast_nonneg b.cast_nonneg)
      exact div_le_div_of_nonneg_right (Nat.cast_le.mpr h) b.cast_nonneg

theorem one_le_nearest {q : ℚ} (h : 1 ≤ q) : 1 ≤ nearest q := by
  have hone : nearest 1 = 1 := by
    apply nearest_of_multiple (k := 2 ^ 52)
    rw [zpow_mul_ulp, Int.log_one_right]
    norm_num
  calc 1 = nearest 1 := hone.symm
    _ ≤ nearest q := nearest_mono zero_le_one h

/-- The float before one. -/
theorem nearest_lt_one {q : ℚ} (hq : 0 ≤ q) (h : q ≤ 1 - 1 / 2 ^ 53) : nearest q < 1 := by
  have hlog : Int.log 2 (1 - 1 / 2 ^ 53 : ℚ) = -1 := by
    apply le_antisymm
    · rw [← Int.lt_add_one_iff, neg_add_cancel]
      apply (Int.lt_zpow_iff_log_lt (by decide) (by norm_num)).mp
      norm_num
    · apply (Int.zpow_le_iff_le_log (by decide) (by norm_num)).mp
      norm_num
  have hfloat : nearest (1 - 1 / 2 ^ 53) = 1 - 1 / 2 ^ 53 := by
    apply nearest_of_multiple (k := 2 ^ 53 - 1)
    rw [ulp, hlog]
    norm_num
  calc nearest q ≤ nearest (1 - 1 / 2 ^ 53) := nearest_mono hq h
    _ = 1 - 1 / 2 ^ 53 := hfloat
    _ < 1 := by norm_num

/-- A quotient of numbers that are floats is not rounded up to one. -/
theorem nearest_div_lt_one_iff {a b : ℕ} (hb : 0 < b) (hsmall : b < 2 ^ 53) :
    nearest (a / b) < 1 ↔ a < b := by
  have hb' : (0 : ℚ) < b := Nat.cast_pos.mpr hb
  constructor
  · intro hlt
    by_contra hle
    have hone : (1 : ℚ) ≤ a / b := by
      rw [le_div_iff₀ hb', one_mul]
      exact_mod_cast Nat.le_of_not_lt hle
    exact absurd (one_le_nearest hone) (not_le.mpr hlt)
  · intro hlt
    apply nearest_lt_one (div_nonneg a.cast_nonneg b.cast_nonneg)
    have hgap : (a : ℚ) ≤ b - 1 := by
      have hsucc : a + 1 ≤ b := hlt
      have hcast : (a : ℚ) + 1 ≤ b := by exact_mod_cast hsucc
      linarith
    have hbits : (b : ℚ) ≤ 2 ^ 53 := by exact_mod_cast hsmall.le
    rw [div_le_iff₀ hb']
    have hshare : (b : ℚ) / 2 ^ 53 ≤ 1 := by
      rw [div_le_one (by norm_num)]
      exact hbits
    linarith

end Binary64

end SilverNetwork
