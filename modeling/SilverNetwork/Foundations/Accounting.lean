import Mathlib.Algebra.GroupWithZero.Nat
import Mathlib.Algebra.Order.BigOperators.Group.List
import Mathlib.Algebra.Order.Group.Nat
import SilverNetwork.Foundations.RelyGuarantee

/-! What the actions of interleaved programs come to together. Each program is charged with the
weight of the actions that it does on any of its paths, and pays for them one after the other. -/

namespace SilverNetwork

/-! ## Sums by keys -/

section Fibers

variable {α κ M : Type} [AddCommMonoid M] {f g : α → M}

/-- A relation that adds up, and holds of each member of a list, holds of the sums. -/
theorem sum_rel {r : M → M → Prop} (hzero : r 0 0)
    (hadd : ∀ {a b a' b' : M}, r a b → r a' b' → r (a + a') (b + b')) {l : List α}
    (h : ∀ a ∈ l, r (f a) (g a)) : r (l.map f).sum (l.map g).sum := by
  induction l with
  | nil => exact hzero
  | cons a l ih =>
      simp only [List.map_cons, List.sum_cons]
      exact hadd (h a List.mem_cons_self) (ih fun a ha => h a (List.mem_cons_of_mem _ ha))

theorem sum_map_filter_add (p : α → Bool) (f : α → M) (l : List α) :
    ((l.filter p).map f).sum + ((l.filter fun a => !p a).map f).sum = (l.map f).sum := by
  induction l with
  | nil => exact add_zero 0
  | cons a l ih =>
      cases hp : p a with
      | true =>
          simp only [List.filter_cons, hp, if_true, Bool.not_true, Bool.false_eq_true, if_false,
            List.map_cons, List.sum_cons]
          rw [add_assoc, ih]
      | false =>
          simp only [List.filter_cons, hp, Bool.false_eq_true, if_false, Bool.not_false, if_true,
            List.map_cons, List.sum_cons]
          rw [add_left_comm, ih]

variable [DecidableEq κ]

/-- The members of a list with a key. -/
def fiber (key : α → Option κ) (k : κ) (l : List α) : List α :=
  l.filter fun a => decide (key a = some k)

theorem fiber_append (key : α → Option κ) (k : κ) (l l' : List α) :
    fiber key k (l ++ l') = fiber key k l ++ fiber key k l' :=
  List.filter_append l l'

/-- Two sums over a list are in a relation that adds up if they are so for each key, and for each
member without one. -/
theorem sum_rel_of_fibers {r : M → M → Prop} (hzero : r 0 0)
    (hadd : ∀ {a b a' b' : M}, r a b → r a' b' → r (a + a') (b + b')) (key : α → Option κ)
    (l : List α) (hfree : ∀ a ∈ l, key a = none → r (f a) (g a))
    (hfibers : ∀ k, r ((fiber key k l).map f).sum ((fiber key k l).map g).sum) :
    r (l.map f).sum (l.map g).sum := by
  suffices hkeys : ∀ keys : List κ, ∀ l : List α, (∀ a ∈ l, ∀ k, key a = some k → k ∈ keys) →
      (∀ a ∈ l, key a = none → r (f a) (g a)) →
      (∀ k, r ((fiber key k l).map f).sum ((fiber key k l).map g).sum) →
      r (l.map f).sum (l.map g).sum from
    hkeys (l.filterMap key) l (fun a ha k hk => List.mem_filterMap.mpr ⟨a, ha, hk⟩) hfree hfibers
  intro keys
  induction keys with
  | nil =>
      intro l hin hfree _
      refine sum_rel hzero hadd fun a ha => hfree a ha ?_
      cases hkey : key a with
      | none => rfl
      | some k => cases hin a ha k hkey
  | cons k keys ih =>
      intro l hin hfree hfibers
      rw [← sum_map_filter_add (fun a => decide (key a = some k)) f,
        ← sum_map_filter_add (fun a => decide (key a = some k)) g]
      refine hadd (hfibers k) (ih _ ?_ ?_ ?_)
      · intro a ha k' hk'
        obtain ⟨hmem, hne⟩ := List.mem_filter.mp ha
        refine (List.mem_cons.mp (hin a hmem k' hk')).resolve_left ?_
        rintro rfl
        simp [hk'] at hne
      · exact fun a ha => hfree a (List.mem_of_mem_filter ha)
      · intro k'
        rw [fiber, List.filter_filter]
        by_cases hk' : k' = k
        · subst hk'
          have hnone : (l.filter fun a => decide (key a = some k') &&
              !decide (key a = some k')) = [] := by
            simp
          simpa only [hnone, List.map_nil, List.sum_nil] using hzero
        · have hsame : (l.filter fun a => decide (key a = some k') &&
              !decide (key a = some k)) = fiber key k' l := by
            refine List.filter_congr fun a _ => ?_
            by_cases ha : key a = some k'
            · simp [ha, hk']
            · simp [ha]
          rw [hsame]
          exact hfibers k'

theorem sum_eq_of_fibers (key : α → Option κ) (l : List α)
    (hfree : ∀ a ∈ l, key a = none → f a = g a)
    (hfibers : ∀ k, ((fiber key k l).map f).sum = ((fiber key k l).map g).sum) :
    (l.map f).sum = (l.map g).sum :=
  sum_rel_of_fibers (r := Eq) rfl (fun h h' => congrArg₂ (· + ·) h h') key l hfree hfibers

theorem sum_le_of_fibers {f g : α → ℕ} (key : α → Option κ) (l : List α)
    (hfree : ∀ a ∈ l, key a = none → f a ≤ g a)
    (hfibers : ∀ k, ((fiber key k l).map f).sum ≤ ((fiber key k l).map g).sum) :
    (l.map f).sum ≤ (l.map g).sum :=
  sum_rel_of_fibers (r := (· ≤ ·)) (le_refl 0) Nat.add_le_add key l hfree hfibers

end Fibers

/-! ## Programs that pay -/

namespace AtomicProgram

variable {Act : Type} {Answer : Act → Type} {ρ ρ' : Type} {w : Act → ℕ} {n m : ℕ}

/-- Whatever the answers, the program still does actions of the weight `n` in all. -/
def Owes (w : Act → ℕ) : AtomicProgram Act Answer ρ → ℕ → Prop
  | .ret _, n => n = 0
  | .act action next, n => ∃ m, n = w action + m ∧ ∀ answer, (next answer).Owes w m

theorem Owes.bind {p : AtomicProgram Act Answer ρ} {k : ρ → AtomicProgram Act Answer ρ'}
    (hp : p.Owes w n) (hk : ∀ result, (k result).Owes w m) : (p >>= k).Owes w (n + m) := by
  induction p generalizing n with
  | ret result =>
      obtain rfl : n = 0 := hp
      rw [Nat.zero_add]
      exact hk result
  | act action next ih =>
      obtain ⟨rest, rfl, hrest⟩ := hp
      exact ⟨rest + m, Nat.add_assoc _ _ _, fun answer => ih answer (hrest answer)⟩

theorem Owes.congr {p : AtomicProgram Act Answer ρ} (h : p.Owes w n) (hn : n = m) :
    p.Owes w m := hn ▸ h

theorem Owes.once (action : Act) : (once action : AtomicProgram Act Answer _).Owes w (w action) :=
  ⟨0, rfl, fun _ => rfl⟩

theorem Owes.pure (result : ρ) : (Pure.pure result : AtomicProgram Act Answer ρ).Owes w 0 := rfl

end AtomicProgram

namespace SharedObject

variable {σ ε δ κ Op ρ Act : Type} {Answer : Act → Type} {O : SharedObject σ ε δ Op ρ Act Answer}
  {x y : Concurrent σ κ Op ρ Act Answer} {w : Act → ℕ} {charge : Op → ℕ} {caller : κ} {k : ℕ}

/-- The caller that a step is taken by. -/
def stepCaller : ConcurrentEvent ε δ κ Op → Option κ
  | .call caller _ => some caller
  | .act caller _ => some caller
  | .elapse _ => none

abbrev Step (σ ε δ κ Op ρ Act : Type) (Answer : Act → Type) : Type :=
  Call (Concurrent σ κ Op ρ Act Answer) (ConcurrentEvent ε δ κ Op) (Progress ρ)

/-- The weight of the action that a step does. -/
def paid (w : Act → ℕ) (c : Step σ ε δ κ Op ρ Act Answer) : ℕ :=
  ((c.pre.due c.event).map w).getD 0

/-- What the call that a step makes is charged with. -/
def charged (charge : Op → ℕ) (c : Step σ ε δ κ Op ρ Act Answer) : ℕ :=
  match c.event with
  | .call _ op => charge op
  | _ => 0

/-- What a caller has still to pay. -/
def Outstanding (w : Act → ℕ) (x : Concurrent σ κ Op ρ Act Answer) (caller : κ) (k : ℕ) : Prop :=
  match x.threads caller with
  | none => k = 0
  | some thread => thread.rest.Owes w k

/-- No action panics. -/
def NeverPanics (O : SharedObject σ ε δ Op ρ Act Answer) : Prop :=
  ∀ action readings s, (O.perform action readings s).1 ≠ none

variable [DecidableEq κ]

/-- A step pays what it takes from the debt of its caller. -/
theorem Rule.outstanding {e : ConcurrentEvent ε δ κ Op} {r : Progress ρ} (h : Rule O x e r y)
    (hpanic : NeverPanics O) (hcharge : ∀ op, (O.program op).Owes w (charge op))
    (hx : Outstanding w x caller k) : ∃ k', Outstanding w y caller k' ∧
      if stepCaller e = some caller then
        paid w (⟨x, e, r, y⟩ : Step σ ε δ κ Op ρ Act Answer) + k' =
          charged charge (⟨x, e, r, y⟩ : Step σ ε δ κ Op ρ Act Answer) + k
      else k' = k := by
  by_cases hown : stepCaller e = some caller
  · simp only [hown, if_true]
    cases h with
    | elapse => cases hown
    | call caller' op idle =>
        obtain rfl := Option.some.inj hown
        rw [Outstanding, idle] at hx
        refine ⟨charge op, ?_, ?_⟩
        · simp only [Outstanding, Concurrent.resume_threads]
          exact hcharge op
        · simp only [paid, Concurrent.due, charged, Option.map_none, Option.getD_none]
          omega
    | act caller' readings thread action next answer s busy due performs =>
        obtain rfl := Option.some.inj hown
        rw [Outstanding, busy] at hx
        simp only [due] at hx
        obtain ⟨rest, rfl, hrest⟩ := hx
        refine ⟨rest, ?_, ?_⟩
        · simp only [Outstanding, Concurrent.resume_threads]
          exact hrest answer
        · simp only [paid, due_eq busy due, charged, Option.map_some, Option.getD_some]
          omega
    | panic caller' readings thread action next s busy due performs =>
        exact absurd (congrArg Prod.fst performs) (hpanic action readings x.shared)
    | finish caller' readings thread result busy due =>
        obtain rfl := Option.some.inj hown
        rw [Outstanding, busy] at hx
        simp only [due] at hx
        obtain rfl : k = 0 := hx
        refine ⟨0, ?_, ?_⟩
        · simp [Outstanding]
        · simp [paid, Concurrent.due, busy, due, charged]
  · simp only [hown, if_false]
    refine ⟨k, ?_, rfl⟩
    have hsame : y.threads caller = x.threads caller := by
      cases h with
      | elapse => rfl
      | call caller' | act caller' | panic caller' | finish caller' =>
          exact Concurrent.resume_threads_of_ne (fun h => hown (congrArg some h.symm)) _ _ _
    rwa [Outstanding, hsame]

variable {calls : List (Step σ ε δ κ Op ρ Act Answer)} {s : σ}

/-- At every moment of a run a caller has paid what it has been charged with, up to what it has
still to pay. -/
theorem run_outstanding (hpanic : NeverPanics O) (hcharge : ∀ op, (O.program op).Owes w (charge op))
    (hrun : (O.machine κ).Run (.start s) calls x) (caller : κ) :
    ∃ k, Outstanding w x caller k ∧
      ((fiber (fun c => stepCaller c.event) caller calls).map (paid w)).sum + k =
        ((fiber (fun c => stepCaller c.event) caller calls).map (charged charge)).sum := by
  induction hrun with
  | start => exact ⟨0, rfl, rfl⟩
  | @call calls c _ hmakes ih =>
      obtain ⟨k, hk, hsum⟩ := ih
      obtain ⟨k', hk', hpaid⟩ := (rule_of_step hmakes).outstanding hpanic hcharge hk
      refine ⟨k', hk', ?_⟩
      rw [fiber_append, List.map_append, List.map_append, List.sum_append, List.sum_append]
      by_cases hown : stepCaller c.event = some caller
      · simp only [hown, if_true] at hpaid
        have hfiber : fiber (fun c => stepCaller c.event) caller [c] = [c] := by
          simp [fiber, hown]
        simp only [hfiber, List.map_cons, List.map_nil, List.sum_singleton]
        have hpaid : paid w c + k' = charged charge c + k := hpaid
        omega
      · simp only [hown, if_false] at hpaid
        have hfiber : fiber (fun c => stepCaller c.event) caller [c] = [] := by
          simp [fiber, hown]
        simp only [hfiber, List.map_nil, List.sum_nil]
        omega

omit [DecidableEq κ] in
theorem paid_of_caller_none {c : Step σ ε δ κ Op ρ Act Answer} (h : stepCaller c.event = none) :
    paid w c = 0 := by
  cases hevent : c.event with
  | call caller op | act caller readings =>
      rw [hevent] at h
      cases h
  | elapse duration => simp [paid, Concurrent.due, hevent]

omit [DecidableEq κ] in
theorem charged_of_caller_none {c : Step σ ε δ κ Op ρ Act Answer}
    (h : stepCaller c.event = none) : charged charge c = 0 := by
  cases hevent : c.event with
  | call caller op | act caller readings =>
      rw [hevent] at h
      cases h
  | elapse duration => simp [charged, hevent]

/-- No more is paid than charged. -/
theorem paid_le_charged (hpanic : NeverPanics O) (hcharge : ∀ op, (O.program op).Owes w (charge op))
    (hrun : (O.machine κ).Run (.start s) calls x) :
    (calls.map (paid w)).sum ≤ (calls.map (charged charge)).sum := by
  refine sum_le_of_fibers (fun c => stepCaller c.event) calls ?_ ?_
  · intro c _ hnone
    rw [paid_of_caller_none hnone]
    exact Nat.zero_le _
  · intro caller
    obtain ⟨k, _, hsum⟩ := run_outstanding hpanic hcharge hrun caller
    omega

/-- When all callers have returned, all is paid. -/
theorem paid_eq_charged (hpanic : NeverPanics O) (hcharge : ∀ op, (O.program op).Owes w (charge op))
    (hrun : (O.machine κ).Run (.start s) calls x) (hidle : ∀ caller, x.threads caller = none) :
    (calls.map (paid w)).sum = (calls.map (charged charge)).sum := by
  refine sum_eq_of_fibers (fun c => stepCaller c.event) calls ?_ ?_
  · intro c _ hnone
    rw [paid_of_caller_none hnone, charged_of_caller_none hnone]
  · intro caller
    obtain ⟨k, hk, hsum⟩ := run_outstanding hpanic hcharge hrun caller
    rw [Outstanding, hidle caller] at hk
    obtain rfl : k = 0 := hk
    exact hsum

end SharedObject

end SilverNetwork
