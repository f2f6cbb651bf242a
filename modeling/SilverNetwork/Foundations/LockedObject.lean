import Mathlib.Data.List.Pairwise
import SilverNetwork.Foundations.Interleaving
import SilverNetwork.Foundations.LockProgram

/-! Callers that run lock programs on one object, where a guard keeps out the guards that it
excludes. What a program does about its locks, it does among others as well. -/

namespace SilverNetwork

/-- A guard of a lock that readers share. -/
inductive Guard (Λ : Type) where
  | read (lock : Λ)
  | write (lock : Λ)
  deriving DecidableEq, Repr

namespace Guard

variable {Λ : Type} [DecidableEq Λ]

def lock : Guard Λ → Λ
  | .read lock => lock
  | .write lock => lock

def excludes : Guard Λ → Guard Λ → Bool
  | .read _, .read _ => false
  | g, g' => g.lock = g'.lock

theorem excludes_comm (g g' : Guard Λ) : g.excludes g' = g'.excludes g := by
  cases g with
  | read lock =>
      cases g' with
      | read lock' => rfl
      | write lock' => exact decide_eq_decide.mpr eq_comm
  | write lock =>
      cases g' with
      | read lock' | write lock' => exact decide_eq_decide.mpr eq_comm

theorem lock_eq_of_excludes {g g' : Guard Λ} (h : g.excludes g' = true) : g.lock = g'.lock := by
  cases g with
  | read lock =>
      cases g' with
      | read lock' => cases h
      | write lock' => exact of_decide_eq_true h
  | write lock =>
      cases g' with
      | read lock' | write lock' => exact of_decide_eq_true h

theorem excludes_write {lock : Λ} {g : Guard Λ} (h : g.lock = lock) :
    (Guard.write lock).excludes g = true := by
  subst h
  cases g <;> simp [excludes, Guard.lock]

end Guard

/-- An object whose operations are lock programs, with the guards that cannot be held at once.
Between two steps something may happen to the state by itself. -/
structure LockedObject (Λ σ δ Op ρ : Type) where
  excludes : Λ → Λ → Bool
  program : Op → LockProgram Λ σ ρ
  elapse : δ → σ → σ

/-- The state, all guards that are held, and what is left to each caller that has not returned. -/
structure Contended (Λ σ κ ρ : Type) where
  shared : σ
  guards : List (κ × Λ)
  threads : κ → Option (LockProgram Λ σ ρ)

inductive ContendedEvent (δ κ Op : Type) where
  | call (caller : κ) (op : Op)
  | act (caller : κ)
  | elapse (duration : δ)

/-- The caller that a step is taken by. -/
def ContendedEvent.caller {δ κ Op : Type} : ContendedEvent δ κ Op → Option κ
  | .call caller _ => some caller
  | .act caller => some caller
  | .elapse _ => none

/-- The guards that a caller holds, the latest first. -/
def heldBy {κ Λ : Type} [DecidableEq κ] (caller : κ) (guards : List (κ × Λ)) : List Λ :=
  (guards.filter fun g => g.1 = caller).map Prod.snd

section HeldBy

variable {κ Λ : Type} [DecidableEq κ] {caller caller' : κ} {lock : Λ} {guards : List (κ × Λ)}

theorem mem_heldBy : lock ∈ heldBy caller guards ↔ (caller, lock) ∈ guards := by
  simp only [heldBy, List.mem_map, List.mem_filter, decide_eq_true_eq]
  constructor
  · rintro ⟨⟨_, _⟩, ⟨hmem, rfl⟩, rfl⟩
    exact hmem
  · intro hmem
    exact ⟨(caller, lock), ⟨hmem, rfl⟩, rfl⟩

@[simp] theorem heldBy_cons_self :
    heldBy caller ((caller, lock) :: guards) = lock :: heldBy caller guards := by
  simp [heldBy]

theorem heldBy_cons_of_ne (h : caller' ≠ caller) :
    heldBy caller' ((caller, lock) :: guards) = heldBy caller' guards := by
  simp [heldBy, Ne.symm h]

@[simp] theorem heldBy_leave_self :
    heldBy caller (guards.filter fun g => g.1 ≠ caller) = [] := by
  simp only [heldBy, List.map_eq_nil_iff, List.filter_eq_nil_iff, List.mem_filter,
    decide_eq_true_eq]
  rintro g ⟨_, hne⟩
  exact hne

theorem heldBy_leave_of_ne (h : caller' ≠ caller) :
    heldBy caller' (guards.filter fun g => g.1 ≠ caller) = heldBy caller' guards := by
  unfold heldBy
  rw [List.filter_filter]
  congr 2
  funext g
  by_cases hg : g.1 = caller'
  · simp [hg, h]
  · simp [hg]

variable [DecidableEq Λ]

theorem heldBy_erase_self :
    heldBy caller (guards.erase (caller, lock)) = (heldBy caller guards).erase lock := by
  induction guards with
  | nil => rfl
  | cons g guards ih =>
      obtain ⟨owner, held⟩ := g
      by_cases howner : owner = caller
      · subst howner
        by_cases hheld : held = lock
        · simp [hheld]
        · rw [List.erase_cons_tail (by simpa using hheld), heldBy_cons_self, heldBy_cons_self,
            List.erase_cons_tail (by simpa using hheld), ih]
      · rw [List.erase_cons_tail (by simp [howner]), heldBy_cons_of_ne (Ne.symm howner),
          heldBy_cons_of_ne (Ne.symm howner), ih]

theorem heldBy_erase_of_ne (h : caller' ≠ caller) :
    heldBy caller' (guards.erase (caller, lock)) = heldBy caller' guards := by
  induction guards with
  | nil => rfl
  | cons g guards ih =>
      obtain ⟨owner, held⟩ := g
      by_cases hsame : (owner, held) = (caller, lock)
      · obtain ⟨rfl, rfl⟩ := Prod.mk.inj hsame
        rw [List.erase_cons_head, heldBy_cons_of_ne h]
      · rw [List.erase_cons_tail (by simpa using hsame)]
        by_cases howner : owner = caller'
        · subst howner
          rw [heldBy_cons_self, heldBy_cons_self, ih]
        · rw [heldBy_cons_of_ne (Ne.symm howner), heldBy_cons_of_ne (Ne.symm howner), ih]

end HeldBy

namespace Contended

variable {Λ σ δ κ Op ρ : Type}

/-- Nobody has called yet. -/
def start (shared : σ) : Contended Λ σ κ ρ where
  shared := shared
  guards := []
  threads := fun _ => none

variable [DecidableEq κ]

/-- The caller goes on with a program, with what has become of the state and of the guards. -/
def resume (x : Contended Λ σ κ ρ) (caller : κ) (shared : σ) (guards : List (κ × Λ))
    (rest : LockProgram Λ σ ρ) : Contended Λ σ κ ρ where
  shared := shared
  guards := guards
  threads := Function.update x.threads caller (some rest)

/-- The caller returns or panics, which drops its guards. -/
def leave (x : Contended Λ σ κ ρ) (caller : κ) : Contended Λ σ κ ρ where
  shared := x.shared
  guards := x.guards.filter fun g => g.1 ≠ caller
  threads := Function.update x.threads caller none

variable [DecidableEq Λ]

def step (O : LockedObject Λ σ δ Op ρ) (x : Contended Λ σ κ ρ) :
    ContendedEvent δ κ Op → Option (Progress ρ × Contended Λ σ κ ρ)
  | .call caller op =>
      match x.threads caller with
      | some _ => none
      | none => some (.running, x.resume caller x.shared x.guards (O.program op))
  | .act caller =>
      match x.threads caller with
      | none => none
      | some (.done result) => some (.returned result, x.leave caller)
      | some (.acquire lock next) =>
          if x.guards.any fun g => O.excludes g.2 lock then none
          else some (.running, x.resume caller x.shared ((caller, lock) :: x.guards) next)
      | some (.release lock next) =>
          some (.running, x.resume caller x.shared (x.guards.erase (caller, lock)) next)
      | some (.step update next) =>
          match update x.shared with
          | none => some (.panicked, x.leave caller)
          | some s => some (.running, x.resume caller s x.guards (next x.shared))
  | .elapse duration => some (.running, { x with shared := O.elapse duration x.shared })

end Contended

namespace LockedObject

abbrev Step (Λ σ δ κ Op ρ : Type) : Type :=
  Call (Contended Λ σ κ ρ) (ContendedEvent δ κ Op) (Progress ρ)

variable {Λ σ δ κ Op ρ : Type} [DecidableEq κ] [DecidableEq Λ]

def machine (κ : Type) [DecidableEq κ] (O : LockedObject Λ σ δ Op ρ) :
    Machine (Contended Λ σ κ ρ) (ContendedEvent δ κ Op) (Progress ρ) where
  step := Contended.step O

variable {O : LockedObject Λ σ δ Op ρ} {x y : Contended Λ σ κ ρ}

/-- The guard is not held by anyone whose guard excludes it. -/
def Grants (O : LockedObject Λ σ δ Op ρ) (x : Contended Λ σ κ ρ) (lock : Λ) : Prop :=
  ∀ g ∈ x.guards, O.excludes g.2 lock = false

/-- The kinds of steps. -/
inductive Rule (O : LockedObject Λ σ δ Op ρ) (x : Contended Λ σ κ ρ) :
    ContendedEvent δ κ Op → Progress ρ → Contended Λ σ κ ρ → Prop where
  | call (caller : κ) (op : Op) (idle : x.threads caller = none) :
      Rule O x (.call caller op) .running (x.resume caller x.shared x.guards (O.program op))
  | finish (caller : κ) (result : ρ) (due : x.threads caller = some (.done result)) :
      Rule O x (.act caller) (.returned result) (x.leave caller)
  | acquire (caller : κ) (lock : Λ) (next : LockProgram Λ σ ρ)
      (due : x.threads caller = some (.acquire lock next)) (grants : O.Grants x lock) :
      Rule O x (.act caller) .running
        (x.resume caller x.shared ((caller, lock) :: x.guards) next)
  | release (caller : κ) (lock : Λ) (next : LockProgram Λ σ ρ)
      (due : x.threads caller = some (.release lock next)) :
      Rule O x (.act caller) .running
        (x.resume caller x.shared (x.guards.erase (caller, lock)) next)
  | update (caller : κ) (update : σ → Option σ) (next : σ → LockProgram Λ σ ρ) (s : σ)
      (due : x.threads caller = some (.step update next)) (updates : update x.shared = some s) :
      Rule O x (.act caller) .running (x.resume caller s x.guards (next x.shared))
  | panic (caller : κ) (update : σ → Option σ) (next : σ → LockProgram Λ σ ρ)
      (due : x.threads caller = some (.step update next)) (panics : update x.shared = none) :
      Rule O x (.act caller) .panicked (x.leave caller)
  | elapse (duration : δ) :
      Rule O x (.elapse duration) .running { x with shared := O.elapse duration x.shared }

omit [DecidableEq κ] [DecidableEq Λ] in
theorem grants_iff {lock : Λ} :
    O.Grants x lock ↔ ¬ (x.guards.any fun g => O.excludes g.2 lock) = true := by
  simp [Grants]

theorem rule_of_step {e : ContendedEvent δ κ Op} {r : Progress ρ}
    (h : x.step O e = some (r, y)) : Rule O x e r y := by
  cases e with
  | call caller op =>
      simp only [Contended.step] at h
      split at h
      · cases h
      · rename_i idle
        obtain ⟨rfl, rfl⟩ := Prod.mk.inj (Option.some.inj h)
        exact .call caller op idle
  | elapse duration =>
      obtain ⟨rfl, rfl⟩ := Prod.mk.inj (Option.some.inj h)
      exact .elapse duration
  | act caller =>
      simp only [Contended.step] at h
      split at h
      case h_1 => cases h
      case h_2 result due =>
          obtain ⟨rfl, rfl⟩ := Prod.mk.inj (Option.some.inj h)
          exact .finish caller result due
      case h_3 lock next due =>
          obtain ⟨hgrants, hstep⟩ := Option.ite_none_left_eq_some.mp h
          obtain ⟨rfl, rfl⟩ := Prod.mk.inj (Option.some.inj hstep)
          exact .acquire caller lock next due (grants_iff.mpr hgrants)
      case h_4 lock next due =>
          obtain ⟨rfl, rfl⟩ := Prod.mk.inj (Option.some.inj h)
          exact .release caller lock next due
      case h_5 update next due =>
          split at h
          · rename_i panics
            obtain ⟨rfl, rfl⟩ := Prod.mk.inj (Option.some.inj h)
            exact .panic caller update next due panics
          · rename_i s updates
            obtain ⟨rfl, rfl⟩ := Prod.mk.inj (Option.some.inj h)
            exact .update caller update next s due updates

/-- Of two guards that are held, the later one has been granted beside the earlier one. -/
def Exclusive (O : LockedObject Λ σ δ Op ρ) (x : Contended Λ σ κ ρ) : Prop :=
  x.guards.Pairwise fun g g' => O.excludes g'.2 g.2 = false

theorem Rule.exclusive {e : ContendedEvent δ κ Op} {r : Progress ρ} (h : Rule O x e r y)
    (hx : O.Exclusive x) : O.Exclusive y := by
  cases h with
  | elapse | call | update => exact hx
  | finish | panic => exact List.Pairwise.filter _ hx
  | acquire caller lock next due grants => exact List.pairwise_cons.mpr ⟨grants, hx⟩
  | release => exact hx.sublist List.erase_sublist

omit [DecidableEq κ] [DecidableEq Λ] in
/-- Two callers do not hold guards that exclude each other. -/
theorem Exclusive.eq_of_excludes (h : O.Exclusive x)
    (hcomm : ∀ lock lock', O.excludes lock lock' = O.excludes lock' lock) {caller caller' : κ}
    {lock lock' : Λ} (hmem : (caller, lock) ∈ x.guards) (hmem' : (caller', lock') ∈ x.guards)
    (hexcludes : O.excludes lock lock' = true) : caller = caller' := by
  by_contra hne
  have hsymm : Std.Symm fun g g' : κ × Λ => O.excludes g'.2 g.2 = false :=
    { symm := fun g g' hg => (hcomm g.2 g'.2).trans hg }
  have hboth := h.forall hmem' hmem fun hsame => hne (congrArg Prod.fst hsame).symm
  rw [hexcludes] at hboth
  cases hboth

/-- A caller only waits for a lock that is not granted. -/
theorem step_act_eq_none_iff {caller : κ} : x.step O (.act caller) = none ↔
    ∀ rest, x.threads caller = some rest →
      ∃ lock next, rest = .acquire lock next ∧ ¬ O.Grants x lock := by
  simp only [Contended.step]
  split
  case h_1 idle => simp [idle]
  case h_2 result due => simp [due]
  case h_3 lock next due => simp [due, grants_iff]
  case h_4 lock next due => simp [due]
  case h_5 update next due =>
      split
      · simp [due]
      · simp [due]

end LockedObject

end SilverNetwork
