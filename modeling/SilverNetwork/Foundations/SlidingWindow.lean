import Mathlib.Data.List.Induction

/-! Limiting what happens within a sliding window of time by a queue of the past times, which
forgets from its front, and only when it is asked. -/

namespace SilverNetwork

namespace SlidingWindow

variable {limit window : ℕ}

/-- The queue without the times at its front that the window no longer reaches. -/
def expire (window now : ℕ) (queue : List ℕ) : List ℕ :=
  queue.dropWhile fun t => decide (window < now - t)

theorem expire_expire {earlier now : ℕ} (h : earlier ≤ now) (queue : List ℕ) :
    expire window now (expire window earlier queue) = expire window now queue := by
  induction queue with
  | nil => rfl
  | cons t queue ih =>
      by_cases hold : window < earlier - t
      · have hstill : window < now - t := by omega
        simpa [expire, hold, hstill] using ih
      · simp [expire, hold]

/-- In a queue that is sorted, what has expired stands at the front. -/
theorem expire_eq_filter {queue : List ℕ} (h : queue.Pairwise (· ≤ ·)) (now : ℕ) :
    expire window now queue = queue.filter fun t => decide (now ≤ t + window) := by
  induction queue with
  | nil => rfl
  | cons t queue ih =>
      obtain ⟨hfirst, hrest⟩ := List.pairwise_cons.mp h
      by_cases hold : window < now - t
      · have hout : ¬ now ≤ t + window := by omega
        simpa [expire, hold, hout] using ih hrest
      · have hall : ∀ t' ∈ t :: queue, decide (now ≤ t' + window) = true := by
          intro t' ht'
          have hle : t ≤ t' := by
            rcases List.mem_cons.mp ht' with rfl | ht'
            · exact Nat.le_refl t'
            · exact hfirst t' ht'
          exact decide_eq_true (by omega)
        rw [List.filter_eq_self.mpr hall]
        simp [expire, hold]

theorem expire_concat (now : ℕ) (queue : List ℕ) :
    expire window now (queue ++ [now]) = expire window now queue ++ [now] := by
  induction queue with
  | nil => simp [expire]
  | cons t queue ih =>
      by_cases hold : window < now - t
      · simpa [expire, hold] using ih
      · simp [expire, hold]

/-! ## Admitted times -/

/-- The number of times in the closed interval of the window's length from `start` on. -/
def countFrom (window start : ℕ) (times : List ℕ) : ℕ :=
  times.countP fun t => decide (start ≤ t ∧ t ≤ start + window)

theorem countFrom_window {now : ℕ} {times : List ℕ} (h : ∀ t ∈ times, t ≤ now) :
    countFrom window (now - window) times =
      times.countP fun t => decide (now ≤ t + window ∧ t ≤ now) := by
  apply List.countP_congr
  intro t ht
  have hle := h t ht
  simp only [decide_eq_true_eq]
  omega

/-- Times of which each was admitted when the window up to it held fewer than `limit`. -/
inductive Admitted (limit window : ℕ) : List ℕ → Prop where
  | none : Admitted limit window []
  | accept {times : List ℕ} (now : ℕ) : Admitted limit window times → (∀ t ∈ times, t ≤ now) →
      countFrom window (now - window) times < limit → Admitted limit window (times ++ [now])

theorem Admitted.sorted {times : List ℕ} (h : Admitted limit window times) :
    times.Pairwise (· ≤ ·) := by
  induction h with
  | none => exact .nil
  | accept now _ hpast _ ih =>
      rw [List.pairwise_append]
      refine ⟨ih, List.pairwise_singleton _ _, ?_⟩
      intro t ht t' ht'
      rw [List.mem_singleton.mp ht']
      exact hpast t ht

/-- No interval of the window's length holds more than the limit: whatever it holds of the
past when a time in it is admitted, the window up to that time holds as well. -/
theorem Admitted.countFrom_le {times : List ℕ} (h : Admitted limit window times) (start : ℕ) :
    countFrom window start times ≤ limit := by
  induction h with
  | none => exact Nat.zero_le limit
  | @accept times now _ hpast hroom ih =>
      rw [countFrom, List.countP_append, List.countP_singleton]
      split
      · rename_i hin
        have hin : start ≤ now ∧ now ≤ start + window := of_decide_eq_true hin
        have hle : countFrom window start times ≤ countFrom window (now - window) times := by
          apply List.countP_mono_left
          intro t ht hcounted
          have hcounted : start ≤ t ∧ t ≤ start + window := of_decide_eq_true hcounted
          have hpast' := hpast t ht
          exact decide_eq_true (by omega)
        have hlt := Nat.lt_of_le_of_lt hle hroom
        exact hlt
      · exact ih

/-! ## The queue -/

/-- The queue holds the admitted times up to what expired when it was last asked. -/
structure Tracks (limit window now : ℕ) (times queue : List ℕ) : Prop where
  admitted : Admitted limit window times
  asked : ∃ earlier ≤ now, (∀ t ∈ times, t ≤ earlier) ∧ queue = expire window earlier times

variable {now : ℕ} {times queue : List ℕ}

theorem Tracks.none (limit window now : ℕ) : Tracks limit window now [] [] :=
  ⟨.none, now, Nat.le_refl now, by simp, rfl⟩

theorem Tracks.later {later : ℕ} (h : Tracks limit window now times queue)
    (hlater : now ≤ later) : Tracks limit window later times queue := by
  obtain ⟨earlier, hle, hpast, hqueue⟩ := h.asked
  exact ⟨h.admitted, earlier, Nat.le_trans hle hlater, hpast, hqueue⟩

theorem Tracks.past (h : Tracks limit window now times queue) : ∀ t ∈ times, t ≤ now := by
  obtain ⟨earlier, hle, hpast, _⟩ := h.asked
  exact fun t ht => Nat.le_trans (hpast t ht) hle

theorem length_expire (h : Admitted limit window times) (hpast : ∀ t ∈ times, t ≤ now) :
    (expire window now times).length = countFrom window (now - window) times := by
  rw [expire_eq_filter h.sorted, ← List.countP_eq_length_filter, countFrom_window hpast]
  apply List.countP_congr
  intro t ht
  have hle := hpast t ht
  simp only [decide_eq_true_eq]
  omega

theorem Tracks.expire_eq (h : Tracks limit window now times queue) :
    expire window now queue = expire window now times := by
  obtain ⟨earlier, hle, _, hqueue⟩ := h.asked
  rw [hqueue, expire_expire hle]

/-- When the queue is asked, its length is the number of admitted times within the window. -/
theorem Tracks.length_expire_eq (h : Tracks limit window now times queue) :
    (expire window now queue).length = countFrom window (now - window) times := by
  rw [h.expire_eq, length_expire h.admitted h.past]

theorem Tracks.length_le (h : Tracks limit window now times queue) : queue.length ≤ limit := by
  obtain ⟨earlier, _, hpast, hqueue⟩ := h.asked
  rw [hqueue, length_expire h.admitted hpast]
  exact h.admitted.countFrom_le _

theorem Tracks.reject (h : Tracks limit window now times queue) :
    Tracks limit window now times (expire window now queue) :=
  ⟨h.admitted, now, Nat.le_refl now, h.past, h.expire_eq⟩

theorem Tracks.accept (h : Tracks limit window now times queue)
    (hroom : (expire window now queue).length < limit) :
    Tracks limit window now (times ++ [now]) (expire window now queue ++ [now]) := by
  rw [h.length_expire_eq] at hroom
  refine ⟨.accept now h.admitted h.past hroom, now, Nat.le_refl now, ?_, ?_⟩
  · intro t ht
    rcases List.mem_append.mp ht with ht | ht
    · exact h.past t ht
    · exact Nat.le_of_eq (List.mem_singleton.mp ht)
  · rw [h.expire_eq, expire_concat]

end SlidingWindow

end SilverNetwork
