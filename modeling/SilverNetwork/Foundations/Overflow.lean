import Mathlib.Data.UInt

/-! Unsigned arithmetic under the two build settings: with overflow checks an
operation that leaves the range does not return, without them it wraps. -/

namespace SilverNetwork

inductive OverflowChecks where
  | on
  | off
  deriving DecidableEq, Repr

namespace OverflowChecks

def add : OverflowChecks → UInt64 → UInt64 → Option UInt64
  | .on, a, b => if a.toNat + b.toNat < 2 ^ 64 then some (a + b) else none
  | .off, a, b => some (a + b)

def add32 : OverflowChecks → UInt32 → UInt32 → Option UInt32
  | .on, a, b => if a.toNat + b.toNat < 2 ^ 32 then some (a + b) else none
  | .off, a, b => some (a + b)

def mul : OverflowChecks → UInt64 → UInt64 → Option UInt64
  | .on, a, b => if a.toNat * b.toNat < 2 ^ 64 then some (a * b) else none
  | .off, a, b => some (a * b)

def sub : OverflowChecks → UInt64 → UInt64 → Option UInt64
  | .on, a, b => if b ≤ a then some (a - b) else none
  | .off, a, b => some (a - b)

/-- Where an operation returns, it returns the wrapped result under either setting. -/
theorem add_eq_some {checks : OverflowChecks} {a b c : UInt64} (h : checks.add a b = some c) :
    c = a + b := by
  cases checks with
  | on =>
      simp only [add, Option.ite_none_right_eq_some, Option.some.injEq] at h
      exact h.2.symm
  | off => exact (Option.some.inj h).symm

theorem add32_eq_some {checks : OverflowChecks} {a b c : UInt32}
    (h : checks.add32 a b = some c) : c = a + b := by
  cases checks with
  | on =>
      simp only [add32, Option.ite_none_right_eq_some, Option.some.injEq] at h
      exact h.2.symm
  | off => exact (Option.some.inj h).symm

/-- What is returned within the range, or under checks, is the exact sum. -/
theorem toNat_of_add {checks : OverflowChecks} {a b c : UInt64} (h : checks.add a b = some c)
    (hroom : checks = .off → a.toNat + b.toNat < 2 ^ 64) : c.toNat = a.toNat + b.toNat := by
  have hlt : a.toNat + b.toNat < 2 ^ 64 := by
    cases checks with
    | on =>
        simp only [add, Option.ite_none_right_eq_some] at h
        exact h.1
    | off => exact hroom rfl
  rw [add_eq_some h, UInt64.toNat_add]
  exact Nat.mod_eq_of_lt hlt

/-- Where no overflow panics, an operation returns. -/
theorem add_of_room {checks : OverflowChecks} {a b : UInt64}
    (h : checks = .on → a.toNat + b.toNat < 2 ^ 64) : checks.add a b = some (a + b) := by
  cases checks with
  | on => exact if_pos (h rfl)
  | off => rfl

/-- Within the range, an operation returns under either setting. -/
theorem add_of_lt (checks : OverflowChecks) {a b : UInt64} (h : a.toNat + b.toNat < 2 ^ 64) :
    checks.add a b = some (a + b) := by
  cases checks with
  | on => exact if_pos h
  | off => rfl

theorem mul_of_lt (checks : OverflowChecks) {a b : UInt64} (h : a.toNat * b.toNat < 2 ^ 64) :
    checks.mul a b = some (a * b) := by
  cases checks with
  | on => exact if_pos h
  | off => rfl

@[simp] theorem sub_self (checks : OverflowChecks) (a : UInt64) :
    checks.sub a a = some 0 := by
  cases checks <;> simp [sub]

@[simp] theorem zero_add_one (checks : OverflowChecks) : checks.add 0 1 = some 1 := by
  cases checks <;> rfl

end OverflowChecks

/-! ## Saturating arithmetic -/

namespace Saturating

def add (a b : UInt8) : UInt8 := UInt8.ofNat (min 255 (a.toNat + b.toNat))

def sub (a b : UInt8) : UInt8 := UInt8.ofNat (a.toNat - b.toNat)

def mul (a b : UInt8) : UInt8 := UInt8.ofNat (min 255 (a.toNat * b.toNat))

def add32 (a b : UInt32) : UInt32 := UInt32.ofNat (min (2 ^ 32 - 1) (a.toNat + b.toNat))

def add64 (a b : UInt64) : UInt64 := UInt64.ofNat (min (2 ^ 64 - 1) (a.toNat + b.toNat))

def sub64 (a b : UInt64) : UInt64 := UInt64.ofNat (a.toNat - b.toNat)

def mul64 (a b : UInt64) : UInt64 := UInt64.ofNat (min (2 ^ 64 - 1) (a.toNat * b.toNat))

def pow64 (a : UInt64) (n : UInt32) : UInt64 := UInt64.ofNat (min (2 ^ 64 - 1) (a.toNat ^ n.toNat))

@[simp] theorem toNat_add (a b : UInt8) : (add a b).toNat = min 255 (a.toNat + b.toNat) := by
  rw [add, UInt8.toNat_ofNat']
  omega

@[simp] theorem toNat_sub (a b : UInt8) : (sub a b).toNat = a.toNat - b.toNat := by
  have ha := a.toNat_lt
  rw [sub, UInt8.toNat_ofNat']
  omega

@[simp] theorem toNat_mul (a b : UInt8) : (mul a b).toNat = min 255 (a.toNat * b.toNat) := by
  rw [mul, UInt8.toNat_ofNat']
  omega

@[simp] theorem toNat_max (a b : UInt8) : (max a b).toNat = max a.toNat b.toNat := by
  change (if a ≤ b then b else a).toNat = max a.toNat b.toNat
  rw [apply_ite UInt8.toNat, Nat.max_def]
  simp only [UInt8.le_iff_toNat_le]

@[simp] theorem toNat_min (a b : UInt8) : (min a b).toNat = min a.toNat b.toNat := by
  change (if a ≤ b then a else b).toNat = min a.toNat b.toNat
  rw [apply_ite UInt8.toNat, Nat.min_def]
  simp only [UInt8.le_iff_toNat_le]

@[simp] theorem toNat_add32 (a b : UInt32) :
    (add32 a b).toNat = min (2 ^ 32 - 1) (a.toNat + b.toNat) := by
  rw [add32, UInt32.toNat_ofNat']
  omega

@[simp] theorem toNat_add64 (a b : UInt64) :
    (add64 a b).toNat = min (2 ^ 64 - 1) (a.toNat + b.toNat) := by
  rw [add64, UInt64.toNat_ofNat']
  omega

@[simp] theorem toNat_sub64 (a b : UInt64) : (sub64 a b).toNat = a.toNat - b.toNat := by
  have ha := a.toNat_lt
  rw [sub64, UInt64.toNat_ofNat']
  omega

@[simp] theorem toNat_mul64 (a b : UInt64) :
    (mul64 a b).toNat = min (2 ^ 64 - 1) (a.toNat * b.toNat) := by
  rw [mul64, UInt64.toNat_ofNat']
  omega

@[simp] theorem toNat_pow64 (a : UInt64) (n : UInt32) :
    (pow64 a n).toNat = min (2 ^ 64 - 1) (a.toNat ^ n.toNat) := by
  rw [pow64, UInt64.toNat_ofNat']
  omega

end Saturating

end SilverNetwork
