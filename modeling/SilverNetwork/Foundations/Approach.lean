import Mathlib.Data.Nat.Dist
import Mathlib.Order.Interval.Set.UnorderedInterval
import Mathlib.Order.Lattice.Nat

/-! A quantity that approaches a rest value from whichever side it is on, and stops there. Steps
add up, so that only their sum matters, and a larger one leads further. -/

namespace SilverNetwork

/-- The value, by at most `step` nearer to `rest`. -/
def approach (rest step value : ℕ) : ℕ :=
  if rest < value then max (value - step) rest else min (value + step) rest

namespace Approach

variable {rest value : ℕ}

@[simp] theorem approach_zero (rest value : ℕ) : approach rest 0 value = value := by
  unfold approach
  split <;> omega

/-- Two steps lead as far as their sum. -/
theorem approach_approach (rest first second value : ℕ) :
    approach rest second (approach rest first value) = approach rest (first + second) value := by
  by_cases hvalue : rest < value
  · simp only [approach, if_pos hvalue]
    split <;> omega
  · simp only [approach, if_neg hvalue]
    split <;> omega

/-- Two steps lead to the same value when they are equal or both lead to the rest value. -/
theorem approach_eq_iff {first second : ℕ} :
    approach rest first value = approach rest second value ↔
      first = second ∨ Nat.dist value rest ≤ first ∧ Nat.dist value rest ≤ second := by
  unfold approach Nat.dist
  split <;> omega

/-- One step leads at least as far as another when it is at least as long, or leads to the rest
value. -/
theorem approach_mem_uIcc_iff {first second : ℕ} :
    approach rest second value ∈ Set.uIcc (approach rest first value) rest ↔
      first ≤ second ∨ Nat.dist value rest ≤ second := by
  rw [Set.mem_uIcc]
  unfold approach Nat.dist
  split <;> omega

/-- A step stays between the value and the rest value. -/
theorem approach_mem_uIcc (rest step value : ℕ) :
    approach rest step value ∈ Set.uIcc value rest := by
  have hlonger : approach rest step value ∈ Set.uIcc (approach rest 0 value) rest :=
    approach_mem_uIcc_iff.mpr (.inl (Nat.zero_le step))
  rwa [approach_zero] at hlonger

/-- Longer steps than are needed to reach the rest value do not lead further. -/
theorem approach_min {bound : ℕ} (h : Nat.dist value rest ≤ bound) (step : ℕ) :
    approach rest (min bound step) value = approach rest step value := by
  rw [approach_eq_iff]
  omega

end Approach

end SilverNetwork
