import Mathlib.Data.List.Nodup
import Mathlib.Data.UInt
import Mathlib.Logic.Function.Basic

/-! Numbers that callers draw from a counter. Nobody holds a number that another holds, or that has
been spent. -/

namespace SilverNetwork

/-- A counter, with the numbers that are held, each by the caller who drew it, and with those
that have been spent. -/
structure Tickets (κ : Type) where
  next : ℕ
  held : κ → Option ℕ
  spent : List ℕ
  held_lt : ∀ caller i, held caller = some i → i < next
  spent_lt : ∀ i ∈ spent, i < next
  apart : ∀ caller caller' i, held caller = some i → held caller' = some i → caller = caller'
  unspent : ∀ caller i, held caller = some i → i ∉ spent
  nodup : spent.Nodup

namespace Tickets

variable {κ : Type}

/-- Nobody has drawn a number yet. -/
def start (κ : Type) (first : ℕ) : Tickets κ where
  next := first
  held _ := none
  spent := []
  held_lt := by simp
  spent_lt := by simp
  apart := by simp
  unspent := by simp
  nodup := List.nodup_nil

variable [DecidableEq κ]

theorem held_of_update {t : Tickets κ} {caller caller' : κ} {number : Option ℕ} {i : ℕ}
    (h : Function.update t.held caller number caller' = some i) :
    caller' = caller ∧ number = some i ∨ caller' ≠ caller ∧ t.held caller' = some i := by
  by_cases hsame : caller' = caller
  · subst hsame
    exact .inl ⟨rfl, by simpa using h⟩
  · exact .inr ⟨hsame, by simpa [hsame] using h⟩

/-- The caller takes the next number, and forgets any that it held. -/
def draw (t : Tickets κ) (caller : κ) : Tickets κ where
  next := t.next + 1
  held := Function.update t.held caller (some t.next)
  spent := t.spent
  held_lt := by
    intro caller' i h
    rcases held_of_update h with ⟨-, hi⟩ | ⟨-, hheld⟩
    · have hnext := Option.some.inj hi
      omega
    · exact Nat.lt_succ_of_lt (t.held_lt caller' i hheld)
  spent_lt i hi := Nat.lt_succ_of_lt (t.spent_lt i hi)
  apart := by
    intro caller₁ caller₂ i h₁ h₂
    rcases held_of_update h₁ with ⟨rfl, hi⟩ | ⟨-, hheld₁⟩
    · rcases held_of_update h₂ with ⟨rfl, -⟩ | ⟨-, hheld₂⟩
      · rfl
      · have hlt := t.held_lt caller₂ i hheld₂
        have hnext := Option.some.inj hi
        omega
    · rcases held_of_update h₂ with ⟨-, hi⟩ | ⟨-, hheld₂⟩
      · have hlt := t.held_lt caller₁ i hheld₁
        have hnext := Option.some.inj hi
        omega
      · exact t.apart caller₁ caller₂ i hheld₁ hheld₂
  unspent := by
    intro caller' i h hspent
    rcases held_of_update h with ⟨-, hi⟩ | ⟨-, hheld⟩
    · have hlt := t.spent_lt i hspent
      have hnext := Option.some.inj hi
      omega
    · exact t.unspent caller' i hheld hspent
  nodup := t.nodup

theorem held_of_update_none {t : Tickets κ} {caller caller' : κ} {i : ℕ}
    (h : Function.update t.held caller none caller' = some i) :
    caller' ≠ caller ∧ t.held caller' = some i := by
  rcases held_of_update h with ⟨-, hnone⟩ | hother
  · cases hnone
  · exact hother

/-- The caller spends the number that it holds, if any. -/
def spend (t : Tickets κ) (caller : κ) : Tickets κ where
  next := t.next
  held := Function.update t.held caller none
  spent := t.spent ++ (t.held caller).toList
  held_lt caller' i h := t.held_lt caller' i (held_of_update_none h).2
  spent_lt := by
    intro i hi
    rcases List.mem_append.mp hi with hspent | hheld
    · exact t.spent_lt i hspent
    · exact t.held_lt caller i (Option.mem_toList.mp hheld)
  apart caller₁ caller₂ i h₁ h₂ :=
    t.apart caller₁ caller₂ i (held_of_update_none h₁).2 (held_of_update_none h₂).2
  unspent := by
    intro caller' i h hi
    obtain ⟨hne, hheld⟩ := held_of_update_none h
    rcases List.mem_append.mp hi with hspent | hmine
    · exact t.unspent caller' i hheld hspent
    · exact hne (t.apart caller' caller i hheld (Option.mem_toList.mp hmine))
  nodup := by
    have hone : (t.held caller).toList.Nodup := by
      cases t.held caller with
      | none => exact List.nodup_nil
      | some i => exact List.nodup_singleton i
    refine List.Nodup.append t.nodup hone ?_
    intro i hspent hheld
    exact t.unspent caller i (Option.mem_toList.mp hheld) hspent

/-- The caller throws away the number that it holds, if any. -/
def drop (t : Tickets κ) (caller : κ) : Tickets κ where
  next := t.next
  held := Function.update t.held caller none
  spent := t.spent
  held_lt caller' i h := t.held_lt caller' i (held_of_update_none h).2
  spent_lt := t.spent_lt
  apart caller₁ caller₂ i h₁ h₂ :=
    t.apart caller₁ caller₂ i (held_of_update_none h₁).2 (held_of_update_none h₂).2
  unspent caller' i h := t.unspent caller' i (held_of_update_none h).2
  nodup := t.nodup

variable {t : Tickets κ} {caller caller' : κ}

@[simp] theorem draw_next : (t.draw caller).next = t.next + 1 := rfl

@[simp] theorem draw_spent : (t.draw caller).spent = t.spent := rfl

theorem draw_held_self : (t.draw caller).held caller = some t.next := Function.update_self _ _ _

theorem draw_held_of_ne (h : caller' ≠ caller) : (t.draw caller).held caller' = t.held caller' :=
  Function.update_of_ne h _ _

@[simp] theorem spend_next : (t.spend caller).next = t.next := rfl

@[simp] theorem spend_spent :
    (t.spend caller).spent = t.spent ++ (t.held caller).toList := rfl

theorem spend_held_of_ne (h : caller' ≠ caller) : (t.spend caller).held caller' = t.held caller' :=
  Function.update_of_ne h _ _

@[simp] theorem drop_next : (t.drop caller).next = t.next := rfl

@[simp] theorem drop_spent : (t.drop caller).spent = t.spent := rfl

theorem drop_held_self : (t.drop caller).held caller = none := Function.update_self _ _ _

theorem drop_held_of_ne (h : caller' ≠ caller) : (t.drop caller).held caller' = t.held caller' :=
  Function.update_of_ne h _ _

/-! ## Numbers of 64 bits -/

theorem ofNat_inj_of_lt {i j : ℕ} (hi : i < 2 ^ 64) (hj : j < 2 ^ 64)
    (h : UInt64.ofNat i = UInt64.ofNat j) : i = j := by
  rw [← UInt64.toNat_ofNat_of_lt' hi, ← UInt64.toNat_ofNat_of_lt' hj, h]

omit [DecidableEq κ] in
/-- Until the counter wraps, the numbers spent differ as machine integers. -/
theorem nodup_ofNat (t : Tickets κ) (h : t.next ≤ 2 ^ 64) :
    (t.spent.map UInt64.ofNat).Nodup := by
  refine t.nodup.map_on ?_
  intro i hi j hj hsame
  have hlt := t.spent_lt i hi
  have hlt' := t.spent_lt j hj
  exact ofNat_inj_of_lt (by omega) (by omega) hsame

end Tickets

end SilverNetwork
