import Mathlib.Data.List.TakeWhile
import SilverNetwork.Foundations.SlidingWindow

/-! A sliding window whose requests come late: each brings a time from before it is decided, so that
the queue of times need not be sorted. It still keeps to its limit, if a request counts for the
window only when it was made and decided there. -/

namespace SilverNetwork

namespace SlidingWindow

/-- A request that was let through, with the time that it brought. -/
structure Admission where
  time : ℕ
  decidedAt : ℕ
  deriving DecidableEq, Repr

/-- The number of requests made and decided in the closed interval of the window's length. -/
def countWithin (window start : ℕ) (admitted : List Admission) : ℕ :=
  admitted.countP fun a => decide (start ≤ a.time ∧ a.decidedAt ≤ start + window)

variable {limit window now time : ℕ} {admitted : List Admission} {queue : List ℕ}

/-- The queue holds the times of the requests let through, without some of the first, which have
left the window. -/
def Holds (window now : ℕ) (admitted : List Admission) (queue : List ℕ) : Prop :=
  ∃ dropped kept, admitted = dropped ++ kept ∧ queue = kept.map Admission.time ∧
    ∀ a ∈ dropped, a.time + window < now

/-- The queue of a limiter, whose requests bring times that are past. -/
structure Delayed (limit window now : ℕ) (admitted : List Admission) (queue : List ℕ) : Prop where
  holds : Holds window now admitted queue
  past : ∀ a ∈ admitted, a.time ≤ a.decidedAt ∧ a.decidedAt ≤ now
  sorted : admitted.Pairwise fun a b => a.decidedAt ≤ b.decidedAt
  bounded : ∀ start, countWithin window start admitted ≤ limit
  length_le : queue.length ≤ limit

namespace Delayed

theorem none (limit window now : ℕ) : Delayed limit window now [] [] where
  holds := ⟨[], [], rfl, rfl, by simp⟩
  past := by simp
  sorted := .nil
  bounded _ := Nat.zero_le limit
  length_le := Nat.zero_le limit

theorem later {later : ℕ} (h : Delayed limit window now admitted queue) (hlater : now ≤ later) :
    Delayed limit window later admitted queue := by
  obtain ⟨dropped, kept, hadmitted, hqueue, hdropped⟩ := h.holds
  refine ⟨⟨dropped, kept, hadmitted, hqueue, ?_⟩, ?_, h.sorted, h.bounded, h.length_le⟩
  · intro a ha
    exact Nat.lt_of_lt_of_le (hdropped a ha) hlater
  · intro a ha
    obtain ⟨htime, hdecided⟩ := h.past a ha
    exact ⟨htime, Nat.le_trans hdecided hlater⟩

/-- What expires of the queue has left the window. -/
theorem holds_expire (h : Holds window now admitted queue) (htime : time ≤ now) :
    Holds window now admitted (expire window time queue) := by
  obtain ⟨dropped, kept, rfl, rfl, hdropped⟩ := h
  let old : Admission → Bool := fun a => decide (window < time - a.time)
  refine ⟨dropped ++ kept.takeWhile old, kept.dropWhile old, ?_, ?_, ?_⟩
  · rw [List.append_assoc, List.takeWhile_append_dropWhile]
  · rw [expire, List.dropWhile_map]
    rfl
  · intro a ha
    rcases List.mem_append.mp ha with ha | ha
    · exact hdropped a ha
    · have hgone : old a = true := List.mem_takeWhile_imp ha
      have hold : window < time - a.time := of_decide_eq_true hgone
      omega

theorem reject (h : Delayed limit window now admitted queue) (htime : time ≤ now) :
    Delayed limit window now admitted (expire window time queue) :=
  ⟨holds_expire h.holds htime, h.past, h.sorted, h.bounded,
    Nat.le_trans (List.dropWhile_sublist _).length_le h.length_le⟩

/-- A request that finds the queue full comes when as many others have been let through within the
window up to its time, or since. -/
theorem full (h : Delayed limit window now admitted queue)
    (hfull : limit ≤ (expire window time queue).length) :
    limit ≤ admitted.countP fun a => decide (time ≤ a.decidedAt + window) := by
  obtain ⟨dropped, kept, rfl, rfl, -⟩ := h.holds
  let old : Admission → Bool := fun a => decide (window < time - a.time)
  have hexpire : expire window time (kept.map Admission.time) =
      (kept.dropWhile old).map Admission.time := by
    rw [expire, List.dropWhile_map]
    rfl
  rw [hexpire, List.length_map] at hfull
  refine Nat.le_trans hfull ?_
  have hsub : (kept.dropWhile old).Sublist (dropped ++ kept) :=
    (List.dropWhile_sublist old).trans (List.sublist_append_right dropped kept)
  refine Nat.le_trans ?_ (hsub.countP_le (p := fun a => decide (time ≤ a.decidedAt + window)))
  apply Nat.le_of_eq
  symm
  rw [List.countP_eq_length]
  -- the first of them is in the window, and the others have been decided after it
  intro a ha
  cases hrest : kept.dropWhile old with
  | nil =>
      rw [hrest] at ha
      simp at ha
  | cons first rest =>
      have hfirst : ¬ old first := by
        have hhead := List.head_dropWhile_not old (by rw [hrest]; simp : kept.dropWhile old ≠ [])
        simpa [hrest] using hhead
      have hin : ¬ window < time - first.time := by simpa [old] using hfirst
      have hmem : first ∈ dropped ++ kept := hsub.subset (by rw [hrest]; simp)
      have hpast := (h.past first hmem).1
      have hsorted := h.sorted.sublist hsub
      rw [hrest] at ha hsorted
      have hle : first.decidedAt ≤ a.decidedAt := by
        rcases List.mem_cons.mp ha with rfl | ha
        · exact Nat.le_refl _
        · exact (List.pairwise_cons.mp hsorted).1 a ha
      exact decide_eq_true (by omega)

/-- Whatever was made and decided in the same window as the last request is still in the queue. -/
theorem countWithin_le_length (h : Holds window now admitted queue) {start : ℕ}
    (hnow : now ≤ start + window) : countWithin window start admitted ≤ queue.length := by
  obtain ⟨dropped, kept, rfl, rfl, hdropped⟩ := h
  have hnone : dropped.countP
      (fun a => decide (start ≤ a.time ∧ a.decidedAt ≤ start + window)) = 0 := by
    rw [List.countP_eq_zero]
    intro a ha
    have hgone := hdropped a ha
    simp only [decide_eq_true_eq]
    omega
  rw [countWithin, List.countP_append, hnone, Nat.zero_add, List.length_map]
  exact List.countP_le_length

theorem accept (h : Delayed limit window now admitted queue) (htime : time ≤ now)
    (hroom : (expire window time queue).length < limit) :
    Delayed limit window now (admitted ++ [⟨time, now⟩]) (expire window time queue ++ [time]) := by
  have hholds := holds_expire h.holds htime
  refine ⟨?_, ?_, ?_, ?_, ?_⟩
  · obtain ⟨dropped, kept, hadmitted, hqueue, hdropped⟩ := hholds
    exact ⟨dropped, kept ++ [⟨time, now⟩], by simp [hadmitted], by simp [hqueue], hdropped⟩
  · rw [List.forall_mem_append]
    exact ⟨h.past, by simpa using htime⟩
  · rw [List.pairwise_append]
    refine ⟨h.sorted, List.pairwise_singleton _ _, ?_⟩
    intro a ha b hb
    rw [List.mem_singleton.mp hb]
    exact (h.past a ha).2
  · intro start
    rw [countWithin, List.countP_append, List.countP_singleton]
    split
    · rename_i hin
      have hin : start ≤ time ∧ now ≤ start + window := of_decide_eq_true hin
      have hle := countWithin_le_length hholds hin.2
      rw [countWithin] at hle
      omega
    · exact h.bounded start
  · rw [List.length_append, List.length_singleton]
    omega

end Delayed

end SlidingWindow

end SilverNetwork
