import Mathlib.Data.List.DropRight

/-! A queue that drops its oldest item before it takes one too many. What it holds is the end of
the list of all the items that were put into it. -/

namespace SilverNetwork

namespace BoundedHistory

variable {α : Type*}

/-- `pop_front` of a queue that is full, then `push_back`. -/
def push (size : ℕ) (queue : List α) (item : α) : List α :=
  (if size ≤ queue.length then queue.tail else queue) ++ [item]

theorem tail_rtake (size : ℕ) (items : List α) (h : size < items.length) :
    (items.rtake (size + 1)).tail = items.rtake size := by
  have hstart : items.length - (size + 1) + 1 = items.length - size := by omega
  rw [List.rtake, List.tail_drop, hstart, List.rtake]

theorem length_rtake (size : ℕ) (items : List α) :
    (items.rtake size).length = min size items.length := by
  simp [List.rtake_eq_reverse_take_reverse]

theorem rtake_of_length_le {size : ℕ} {items : List α} (h : items.length ≤ size) :
    items.rtake size = items := by
  simp [List.rtake_eq_reverse_take_reverse, List.take_of_length_le, h]

/-- One more item. -/
theorem push_rtake {size : ℕ} (hsize : 1 ≤ size) (items : List α) (item : α) :
    push size (items.rtake size) item = (items ++ [item]).rtake size := by
  obtain ⟨room, rfl⟩ := Nat.exists_eq_succ_of_ne_zero (Nat.pos_iff_ne_zero.mp hsize)
  rw [Nat.succ_eq_add_one, List.rtake_concat_succ, push, length_rtake]
  by_cases hfull : room < items.length
  · rw [if_pos (by omega), tail_rtake room items hfull]
  · rw [if_neg (by omega), rtake_of_length_le (by omega), rtake_of_length_le (by omega)]

end BoundedHistory

end SilverNetwork
