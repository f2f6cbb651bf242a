import SilverNetwork.Foundations.LockedObject

/-! When an object with locks looks to its callers as if each call did all its work at one moment
between its call and its return. -/

namespace SilverNetwork

/-- A call that waits for its moment, or that has had it and waits to return. -/
inductive Slot (ε ρ : Type) where
  | pending (e : ε)
  | decided (result : ρ)

/-- An object whose operations take effect at one moment, and the calls that have not returned. -/
structure Atomic (σ κ ε ρ : Type) where
  state : σ
  slots : κ → Option (Slot ε ρ)

inductive AtomicEvent (κ ε : Type) where
  | call (caller : κ) (e : ε)
  | commit (caller : κ)
  | finish (caller : κ)

/-- What a caller sees of a step. -/
inductive Seen (κ ε ρ : Type) where
  | called (caller : κ) (e : ε)
  | returned (caller : κ) (result : ρ)
  | panicked (caller : κ)

variable {σ ε ρ κ : Type}

namespace Atomic

def start (state : σ) : Atomic σ κ ε ρ where
  state := state
  slots := fun _ => none

variable [DecidableEq κ]

def put (a : Atomic σ κ ε ρ) (caller : κ) (state : σ) (slot : Option (Slot ε ρ)) :
    Atomic σ κ ε ρ where
  state := state
  slots := Function.update a.slots caller slot

@[simp] theorem put_slots (a : Atomic σ κ ε ρ) (caller : κ) (state : σ)
    (slot : Option (Slot ε ρ)) : (a.put caller state slot).slots caller = slot := by
  simp [put]

def step (M : Machine σ ε ρ) (a : Atomic σ κ ε ρ) :
    AtomicEvent κ ε → Option (Progress ρ × Atomic σ κ ε ρ)
  | .call caller e =>
      match a.slots caller with
      | some _ => none
      | none => some (.running, a.put caller a.state (some (.pending e)))
  | .commit caller =>
      match a.slots caller with
      | some (.pending e) =>
          (M.step a.state e).map fun (result, s) =>
            (.running, a.put caller s (some (.decided result)))
      | _ => none
  | .finish caller =>
      match a.slots caller with
      | some (.decided result) => some (.returned result, a.put caller a.state none)
      | _ => none

abbrev Step (σ κ ε ρ : Type) : Type :=
  Call (Atomic σ κ ε ρ) (AtomicEvent κ ε) (Progress ρ)

omit [DecidableEq κ] in
def seen (c : Step σ κ ε ρ) : Option (Seen κ ε ρ) :=
  match c.event, c.result with
  | .call caller e, _ => some (.called caller e)
  | .finish caller, .returned result => some (.returned caller result)
  | _, _ => none

end Atomic

/-- The machine as several callers see it if their calls are atomic. -/
def Machine.atomic (κ : Type) [DecidableEq κ] (M : Machine σ ε ρ) :
    Machine (Atomic σ κ ε ρ) (AtomicEvent κ ε) (Progress ρ) where
  step := Atomic.step M

namespace Atomic

variable [DecidableEq κ] {M : Machine σ ε ρ} {a b : Atomic σ κ ε ρ} {caller : κ}

theorem makes_call {e : ε} (h : a.slots caller = none) : (M.atomic κ).step a (.call caller e) =
    some (.running, a.put caller a.state (some (.pending e))) := by
  simp [Machine.atomic, step, h]

theorem makes_commit {e : ε} {result : ρ} {s : σ} (h : a.slots caller = some (.pending e))
    (hstep : M.step a.state e = some (result, s)) : (M.atomic κ).step a (.commit caller) =
      some (.running, a.put caller s (some (.decided result))) := by
  simp [Machine.atomic, step, h, hstep]

theorem makes_finish {result : ρ} (h : a.slots caller = some (.decided result)) :
    (M.atomic κ).step a (.finish caller) =
      some (.returned result, a.put caller a.state none) := by
  simp [Machine.atomic, step, h]

end Atomic

/-- Each call of a run is matched by calls of another machine that look the same from outside. -/
theorem Machine.Run.matched {σ' ε' ρ' τ : Type} {M : Machine σ ε ρ} {M' : Machine σ' ε' ρ'}
    {s t : σ} {s' : σ'} {calls : List (Call σ ε ρ)} {R : σ → σ' → Prop}
    {seen : Call σ ε ρ → Option τ} {seen' : Call σ' ε' ρ' → Option τ} (h : M.Run s calls t)
    (hs : R s s') (step : ∀ c u, M.Makes c → R c.pre u → ∃ calls' u', M'.Run u calls' u' ∧
      calls'.filterMap seen' = (seen c).toList ∧ R c.post u') :
    ∃ calls' t', M'.Run s' calls' t' ∧ calls'.filterMap seen' = calls.filterMap seen ∧
      R t t' := by
  induction h with
  | start => exact ⟨[], s', .start, rfl, hs⟩
  | @call calls c _ hmakes ih =>
      obtain ⟨calls', u, hrun, hseen, hrelated⟩ := ih
      obtain ⟨more, t', hmore, hsame, hpost⟩ := step c u hmakes hrelated
      refine ⟨calls' ++ more, t', hrun.append hmore, ?_, hpost⟩
      rw [List.filterMap_append, List.filterMap_append, hseen, hsame]
      cases hc : seen c with
      | none => simp [hc]
      | some v => simp [hc]

namespace LockedObject

variable {Λ δ Op : Type} [DecidableEq Λ]

omit [DecidableEq Λ] in
def seen (c : Step Λ σ δ κ Op ρ) : Option (Seen κ Op ρ) :=
  match c.event, c.result with
  | .call caller op, _ => some (.called caller op)
  | .act caller, .returned result => some (.returned caller result)
  | .act caller, .panicked => some (.panicked caller)
  | _, _ => none

/-- What the callers see of a run, they see of one in which all calls are atomic, and which leaves
the same state when all of them have returned. In particular no call panics. -/
def Linearizable (κ : Type) [DecidableEq κ] (O : LockedObject Λ σ δ Op ρ) (M : Machine σ Op ρ)
    (s : σ) : Prop :=
  ∀ calls x, (O.machine κ).Run (.start s) calls x →
    ∃ calls' a, (M.atomic κ).Run (.start s) calls' a ∧
      calls'.filterMap Atomic.seen = calls.filterMap seen ∧
      ((∀ caller, x.threads caller = none) → a.state = x.shared)

end LockedObject

end SilverNetwork
