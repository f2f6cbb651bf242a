/-! A mutex of the standard library as its single caller sees it. -/

namespace SilverNetwork

/-- A mutex whose holder panicked is poisoned, and locking it fails from then on. -/
structure Mutex (α : Type) where
  value : α
  poisoned : Bool

namespace Mutex

variable {α : Type}

def new (value : α) : Mutex α := ⟨value, false⟩

def lock (m : Mutex α) : Option α := if m.poisoned then none else some m.value

/-- `if let Ok(mut guard) = m.lock() { … }`, for a body that may panic. -/
def update (m : Mutex α) (body : α → Option α) : Option (Mutex α) :=
  match m.lock with
  | none => some m
  | some value => (body value).map fun value => { m with value }

/-- Putting another value into an unpoisoned mutex leaves it unpoisoned. -/
theorem lock_with_value {m : Mutex α} {value : α} (h : m.lock = some value) (other : α) :
    { m with value := other }.lock = some other := by
  unfold lock at h ⊢
  split at h
  · simp at h
  · rename_i hfree
    rw [if_neg hfree]

end Mutex

end SilverNetwork
