import Mathlib.Data.List.Flatten
import Mathlib.Data.List.Forall2
import Mathlib.Data.UInt

/-! Reading items out of the pieces of a stream. A piece that an item is read from is at least
as large as the item; where all the items are read, and no piece is empty, nothing is wasted. -/

namespace SilverNetwork

namespace Framing

variable {α β : Type*} {read : α → Option β} {size : α → ℕ} {cost : β → ℕ}

/-- What is read from some pieces is no larger than the pieces. -/
theorem sum_cost_le (hread : ∀ piece item, read piece = some item → cost item ≤ size piece)
    (pieces : List α) : ((pieces.filterMap read).map cost).sum ≤ (pieces.map size).sum := by
  induction pieces with
  | nil => simp
  | cons piece pieces ih =>
      cases hpiece : read piece with
      | none =>
          rw [List.filterMap_cons_none hpiece, List.map_cons, List.sum_cons]
          omega
      | some item =>
          have hcost := hread piece item hpiece
          rw [List.filterMap_cons_some hpiece]
          simp only [List.map_cons, List.sum_cons]
          omega

/-- If what is read is as large as the pieces, an item of its own size is read from each. -/
theorem forall₂_of_sum_eq (hread : ∀ piece item, read piece = some item → cost item ≤ size piece)
    {pieces : List α} (hpositive : ∀ piece ∈ pieces, 0 < size piece)
    (hsum : ((pieces.filterMap read).map cost).sum = (pieces.map size).sum) :
    List.Forall₂ (fun piece item => read piece = some item ∧ size piece = cost item) pieces
      (pieces.filterMap read) := by
  induction pieces with
  | nil => simp
  | cons piece pieces ih =>
      have hrest := sum_cost_le hread pieces
      have hpiece := hpositive piece List.mem_cons_self
      cases hfound : read piece with
      | none =>
          rw [List.filterMap_cons_none hfound, List.map_cons, List.sum_cons] at hsum
          omega
      | some item =>
          have hcost := hread piece item hfound
          rw [List.filterMap_cons_some hfound] at hsum ⊢
          simp only [List.map_cons, List.sum_cons] at hsum
          refine .cons ⟨hfound, by omega⟩ (ih ?_ (by omega))
          intro other hother
          exact hpositive other (List.mem_cons_of_mem piece hother)

/-- Two ways to cut a list with pieces of the same lengths are the same. -/
theorem eq_of_flatten_eq {pieces frames : List (List α)}
    (hlength : List.Forall₂ (fun piece frame => piece.length = frame.length) pieces frames)
    (hflatten : pieces.flatten = frames.flatten) : pieces = frames := by
  have hlengths : pieces.map List.length = frames.map List.length := by
    clear hflatten
    induction hlength with
    | nil => rfl
    | cons hhead _ ih => rw [List.map_cons, List.map_cons, hhead, ih]
  exact List.eq_iff_flatten_eq.mpr ⟨hflatten, hlengths⟩

end Framing

end SilverNetwork
