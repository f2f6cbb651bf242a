import Mathlib.Data.List.Count

/-! Limiting what happens by counting in windows of a fixed length, each of which begins when
an event finds the one before it over. An interval that straddles such a beginning holds what
is admitted in two windows. -/

namespace SilverNetwork

namespace FixedWindow

variable {limit period : ℕ}

/-- The number of times in the half-open interval of the period's length from `start` on. -/
def countFrom (period start : ℕ) (times : List ℕ) : ℕ :=
  times.countP fun t => decide (start ≤ t ∧ t < start + period)

/-- The times admitted before the current window, and those admitted in it since it began. -/
inductive Paced (limit period : ℕ) : List ℕ → List ℕ → ℕ → Prop where
  | begin (origin : ℕ) : Paced limit period [] [] origin
  | accept {old current : List ℕ} {origin : ℕ} (now : ℕ) : Paced limit period old current origin →
      origin ≤ now → now < origin + period → current.length < limit →
      Paced limit period old (current ++ [now]) origin
  | restart {old current : List ℕ} {origin : ℕ} (now : ℕ) :
      Paced limit period old current origin → origin + period ≤ now →
      Paced limit period (old ++ current) [] now

variable {old current : List ℕ} {origin : ℕ}

theorem Paced.length_le (h : Paced limit period old current origin) :
    current.length ≤ limit := by
  induction h with
  | begin => exact Nat.zero_le limit
  | accept now _ _ _ hroom _ =>
      rw [List.length_append, List.length_singleton]
      exact hroom
  | restart => exact Nat.zero_le limit

theorem Paced.current_bounds (h : Paced limit period old current origin) :
    ∀ t ∈ current, origin ≤ t ∧ t < origin + period := by
  induction h with
  | begin => simp
  | accept now _ hfrom hto _ ih =>
      exact List.forall_mem_append.mpr ⟨ih, List.forall_mem_singleton.mpr ⟨hfrom, hto⟩⟩
  | restart => simp

theorem Paced.old_le (h : Paced limit period old current origin) : ∀ t ∈ old, t ≤ origin := by
  induction h with
  | begin => simp
  | accept _ _ _ _ _ ih => exact ih
  | restart now hpaced hover ih =>
      intro t ht
      rcases List.mem_append.mp ht with ht | ht
      · have hle := ih t ht
        omega
      · have hlt := (hpaced.current_bounds t ht).2
        omega

theorem countFrom_le_length (start : ℕ) (times : List ℕ) :
    countFrom period start times ≤ times.length := List.countP_le_length

theorem countFrom_eq_zero {start : ℕ} {times : List ℕ}
    (h : ∀ t ∈ times, t < start ∨ start + period ≤ t) : countFrom period start times = 0 := by
  apply List.countP_eq_zero.mpr
  intro t ht hin
  have hout := h t ht
  have hin : start ≤ t ∧ t < start + period := of_decide_eq_true hin
  omega

theorem countFrom_append (start : ℕ) (times times' : List ℕ) :
    countFrom period start (times ++ times') =
      countFrom period start times + countFrom period start times' := List.countP_append

/-- An interval that reaches past the beginning of the current window holds of the older times
only what the window before admitted. -/
theorem Paced.countFrom_old_le (h : Paced limit period old current origin) (start : ℕ)
    (hreach : origin < start + period) : countFrom period start old ≤ limit := by
  induction h with
  | begin => exact Nat.zero_le limit
  | accept _ _ _ _ _ ih => exact ih hreach
  | @restart old current origin now hpaced hover _ =>
      have hbefore : ∀ t ∈ old, t < start ∨ start + period ≤ t := by
        intro t ht
        have hle := hpaced.old_le t ht
        omega
      rw [countFrom_append, countFrom_eq_zero hbefore, Nat.zero_add]
      exact Nat.le_trans (countFrom_le_length start current) hpaced.length_le

/-- No half-open interval of the period's length holds more than two windows may. -/
theorem Paced.countFrom_le (h : Paced limit period old current origin) (start : ℕ) :
    countFrom period start (old ++ current) ≤ 2 * limit := by
  induction h with
  | begin => exact Nat.zero_le _
  | @accept old current origin now hpaced hfrom hto hroom ih =>
      have hnext : Paced limit period old (current ++ [now]) origin :=
        hpaced.accept now hfrom hto hroom
      by_cases hreach : origin < start + period
      · have hold := hnext.countFrom_old_le start hreach
        have hcurrent := @countFrom_le_length period start (current ++ [now])
        have hlimit := hnext.length_le
        rw [countFrom_append]
        omega
      · have hafter : ∀ t ∈ current ++ [now], t < start ∨ start + period ≤ t := by
          intro t ht
          have hbounds := hnext.current_bounds t ht
          omega
        rw [countFrom_append] at ih ⊢
        rw [countFrom_eq_zero hafter]
        omega
  | restart now _ _ ih =>
      rw [List.append_nil]
      exact ih

end FixedWindow

end SilverNetwork
