import Mathlib.Data.List.Destutter
import Mathlib.Data.List.Sort

/-! Lists sorted by a key, without the repetitions that then stand side by side. Where the key tells
the members apart, the result depends on nothing but them. -/

namespace SilverNetwork

namespace KeySort

variable {α β : Type*} [DecidableEq α] [LE β] [DecidableLE β]

def sortDedup (key : α → β) (l : List α) : List α :=
  (l.mergeSort fun a b => decide (key a ≤ key b)).destutter (· ≠ ·)

omit [LE β] [DecidableLE β] in
/-- Leaving out repetitions loses no member. -/
theorem mem_destutter' {l : List α} {a x : α} (h : x ∈ a :: l) : x ∈ l.destutter' (· ≠ ·) a := by
  induction l generalizing a with
  | nil => simpa using h
  | cons b l ih =>
      by_cases hab : a = b
      · subst hab
        rw [List.destutter'_cons_neg _ (by simp)]
        exact ih (by simpa using h)
      · rw [List.destutter'_cons_pos _ hab]
        cases List.mem_cons.mp h with
        | inl hx => simp [hx]
        | inr hx => exact List.mem_cons_of_mem a (ih hx)

omit [LE β] [DecidableLE β] in
theorem mem_destutter {l : List α} {x : α} : x ∈ l.destutter (· ≠ ·) ↔ x ∈ l := by
  constructor
  · exact fun h => (List.destutter_sublist _ l).subset h
  · intro h
    cases l with
    | nil => cases h
    | cons a l => exact mem_destutter' h

@[simp] theorem mem_sortDedup {key : α → β} {l : List α} {x : α} :
    x ∈ sortDedup key l ↔ x ∈ l := by
  rw [sortDedup, mem_destutter, List.mem_mergeSort]

variable [LT β] [Std.IsLinearOrder β] [Std.LawfulOrderLT β] {key : α → β}

omit [DecidableEq α] [LT β] [Std.LawfulOrderLT β] in
theorem pairwise_sort (key : α → β) (l : List α) :
    (l.mergeSort fun a b => decide (key a ≤ key b)).Pairwise fun a b => key a ≤ key b := by
  have hsorted : (l.mergeSort fun a b => decide (key a ≤ key b)).Pairwise
      fun a b => decide (key a ≤ key b) = true := by
    apply List.pairwise_mergeSort
    · intro a b c hab hbc
      simpa using Std.le_trans (of_decide_eq_true hab) (of_decide_eq_true hbc)
    · intro a b
      simpa using Std.le_total (a := key a) (b := key b)
  exact hsorted.imp of_decide_eq_true

omit [DecidableEq α] [LE β] [DecidableLE β] [LT β] [Std.IsLinearOrder β]
  [Std.LawfulOrderLT β] in
theorem isChain_and {R S : α → α → Prop} {l : List α} (hR : l.IsChain R) (hS : l.IsChain S) :
    l.IsChain fun a b => R a b ∧ S a b := by
  induction hR with
  | nil => exact .nil
  | singleton a => exact .singleton a
  | cons_cons hab _ ih =>
      obtain ⟨hab', hrest⟩ := List.isChain_cons_cons.mp hS
      exact .cons_cons ⟨hab, hab'⟩ (ih hrest)

/-- Neighbours that differ have different keys, so that the order is strict. -/
theorem pairwise_sortDedup (hkey : Function.Injective key) (l : List α) :
    (sortDedup key l).Pairwise fun a b => key a < key b := by
  have hle : (sortDedup key l).Pairwise fun a b => key a ≤ key b :=
    (pairwise_sort key l).sublist (List.destutter_sublist _ _)
  have hne : (sortDedup key l).IsChain (· ≠ ·) := List.isChain_destutter _ _
  have htrans : IsTrans α fun a b => key a < key b := ⟨fun _ _ _ => Std.lt_trans⟩
  rw [← List.isChain_iff_pairwise]
  refine (isChain_and hle.isChain hne).imp ?_
  rintro a b ⟨hab, hdiffer⟩
  exact Std.lt_of_le_of_ne hab fun hsame => hdiffer (hkey hsame)

theorem nodup_sortDedup (hkey : Function.Injective key) (l : List α) :
    (sortDedup key l).Nodup := by
  refine (pairwise_sortDedup hkey l).imp ?_
  rintro a b hlt rfl
  exact Std.lt_irrefl hlt

/-- Two lists with the same members are sorted into the same list. -/
theorem sortDedup_congr (hkey : Function.Injective key) {l l' : List α}
    (h : ∀ x, x ∈ l ↔ x ∈ l') : sortDedup key l = sortDedup key l' := by
  have hirrefl : Std.Irrefl fun a b => key a < key b := ⟨fun _ => Std.lt_irrefl⟩
  have hantisymm : Std.Antisymm fun a b => key a < key b :=
    ⟨fun _ _ hab hba => (Std.lt_irrefl (Std.lt_trans hab hba)).elim⟩
  refine (pairwise_sortDedup hkey l).eq_of_mem_iff (pairwise_sortDedup hkey l') ?_
  intro x
  rw [mem_sortDedup, mem_sortDedup, h]

end KeySort

end SilverNetwork
