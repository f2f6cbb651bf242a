import Mathlib.Data.List.Basic

/-! Programs over a shared state that take locks, as one caller runs them. Locks are not
reentrant, so a caller that asks for a lock it already holds never gets on; readers and
writers of a lock are not told apart. -/

namespace SilverNetwork

/-- A program with locks in `Λ`, state `σ` and result `α`. A step is atomic: it sees the
state before it and may panic instead of updating it. -/
inductive LockProgram (Λ σ α : Type) where
  | done (result : α)
  | acquire (lock : Λ) (next : LockProgram Λ σ α)
  | release (lock : Λ) (next : LockProgram Λ σ α)
  | step (update : σ → Option σ) (next : σ → LockProgram Λ σ α)

/-- What becomes of a program that one caller runs. -/
inductive LockOutcome (Λ σ α : Type) where
  | finished (result : α) (state : σ) (held : List Λ)
  | blocked (lock : Λ)
  | panicked

namespace LockProgram

variable {Λ σ α β : Type}

def bind : LockProgram Λ σ α → (α → LockProgram Λ σ β) → LockProgram Λ σ β
  | .done result, k => k result
  | .acquire lock next, k => .acquire lock (next.bind k)
  | .release lock next, k => .release lock (next.bind k)
  | .step update next, k => .step update fun s => (next s).bind k

instance : Monad (LockProgram Λ σ) where
  pure := .done
  bind := bind

def gets (f : σ → α) : LockProgram Λ σ α := .step some fun s => .done (f s)

def update (f : σ → Option σ) : LockProgram Λ σ Unit := .step f fun _ => .done ()

/-- An update that answers. Where it panics there is no answer, and what would follow is not
reached. -/
def answer (f : σ → Option (α × σ)) (unreached : α) : LockProgram Λ σ α :=
  .step (fun s => (f s).map Prod.snd) fun s => .done (((f s).map Prod.fst).getD unreached)

/-- The body runs while a guard holds the lock, which is dropped at the end of its scope. -/
def guarded (lock : Λ) (body : LockProgram Λ σ α) : LockProgram Λ σ α :=
  .acquire lock (body.bind fun result => .release lock (.done result))

def sequence (f : β → LockProgram Λ σ α) : List β → LockProgram Λ σ (List α)
  | [] => pure []
  | x :: xs => do
      let y ← f x
      let ys ← sequence f xs
      pure (y :: ys)

def exec [DecidableEq Λ] : LockProgram Λ σ α → List Λ → σ → LockOutcome Λ σ α
  | .done result, held, s => .finished result s held
  | .acquire lock next, held, s =>
      if lock ∈ held then .blocked lock else next.exec (lock :: held) s
  | .release lock next, held, s => next.exec (held.erase lock) s
  | .step update next, held, s =>
      match update s with
      | none => .panicked
      | some t => (next s).exec held t

variable [DecidableEq Λ]

theorem exec_bind (p : LockProgram Λ σ α) (k : α → LockProgram Λ σ β) (held : List Λ) (s : σ) :
    (p >>= k).exec held s =
      match p.exec held s with
      | .finished result t held' => (k result).exec held' t
      | .blocked lock => .blocked lock
      | .panicked => .panicked := by
  change (p.bind k).exec held s = _
  induction p generalizing held s with
  | done result => rfl
  | acquire lock next ih =>
      simp only [bind, exec]
      split
      · rfl
      · exact ih _ _
  | release lock next ih => exact ih _ _
  | step update next ih =>
      simp only [bind, exec]
      cases update s with
      | none => rfl
      | some t => exact ih s _ _

theorem exec_map (f : α → β) (p : LockProgram Λ σ α) (held : List Λ) (s : σ) :
    (f <$> p).exec held s =
      match p.exec held s with
      | .finished result t held' => .finished (f result) t held'
      | .blocked lock => .blocked lock
      | .panicked => .panicked :=
  exec_bind p (fun result => .done (f result)) held s

theorem exec_guarded_of_mem {lock : Λ} {held : List Λ} (h : lock ∈ held)
    (body : LockProgram Λ σ α) (s : σ) : (guarded lock body).exec held s = .blocked lock := by
  simp [guarded, exec, h]

theorem exec_guarded_of_notMem {lock : Λ} {held : List Λ} (h : lock ∉ held)
    (body : LockProgram Λ σ α) (s : σ) :
    (guarded lock body).exec held s =
      match body.exec (lock :: held) s with
      | .finished result t held' => .finished result t (held'.erase lock)
      | .blocked other => .blocked other
      | .panicked => .panicked := by
  simp only [guarded, exec, if_neg h]
  exact exec_bind body _ (lock :: held) s

/-! ## Programs that do not block -/

/-- Run by a caller that holds `held`, the program gives back each lock it takes and asks
for none that is held. -/
def Clean (held : List Λ) (p : LockProgram Λ σ α) : Prop :=
  ∀ s, p.exec held s = .panicked ∨ ∃ result t, p.exec held s = .finished result t held

variable {held : List Λ}

theorem Clean.not_blocked {p : LockProgram Λ σ α} (h : Clean held p) (s : σ) (lock : Λ) :
    p.exec held s ≠ .blocked lock := by
  intro hblocked
  rcases h s with hp | ⟨result, t, hf⟩
  · rw [hblocked] at hp
    cases hp
  · rw [hblocked] at hf
    cases hf

theorem Clean.pure (result : α) : Clean held (Pure.pure result : LockProgram Λ σ α) :=
  fun s => Or.inr ⟨result, s, rfl⟩

theorem Clean.gets (f : σ → α) : Clean held (gets f : LockProgram Λ σ α) :=
  fun s => Or.inr ⟨f s, s, rfl⟩

theorem Clean.update (f : σ → Option σ) : Clean held (update f : LockProgram Λ σ Unit) := by
  intro s
  cases h : f s with
  | none => exact Or.inl (by simp [LockProgram.update, exec, h])
  | some t => exact Or.inr ⟨(), t, by simp [LockProgram.update, exec, h]⟩

theorem Clean.bind {p : LockProgram Λ σ α} {k : α → LockProgram Λ σ β} (hp : Clean held p)
    (hk : ∀ result, Clean held (k result)) : Clean held (p >>= k) := by
  intro s
  rw [exec_bind]
  rcases hp s with hpanic | ⟨result, t, hdone⟩
  · exact Or.inl (by rw [hpanic])
  · rw [hdone]
    exact hk result t

theorem Clean.map {p : LockProgram Λ σ α} (hp : Clean held p) (f : α → β) :
    Clean held (f <$> p) :=
  hp.bind fun result => Clean.pure (f result)

theorem Clean.guarded {lock : Λ} {body : LockProgram Λ σ α} (hlock : lock ∉ held)
    (hbody : Clean (lock :: held) body) : Clean held (guarded lock body) := by
  intro s
  rw [exec_guarded_of_notMem hlock]
  rcases hbody s with hpanic | ⟨result, t, hdone⟩
  · exact Or.inl (by rw [hpanic])
  · refine Or.inr ⟨result, t, ?_⟩
    rw [hdone]
    exact congrArg (LockOutcome.finished result t) (List.erase_cons_head lock held)

/-! ## Programs that block -/

/-- Run by a caller that holds `held`, the program asks for `lock` while it is held, unless
it panics before it gets there. -/
def Stuck (held : List Λ) (lock : Λ) (p : LockProgram Λ σ α) : Prop :=
  ∀ s, p.exec held s = .panicked ∨ p.exec held s = .blocked lock

variable {lock : Λ}

theorem Stuck.bind {p : LockProgram Λ σ α} (hp : Stuck held lock p)
    (k : α → LockProgram Λ σ β) : Stuck held lock (p >>= k) := by
  intro s
  rw [exec_bind]
  rcases hp s with hpanic | hblocked
  · exact Or.inl (by rw [hpanic])
  · exact Or.inr (by rw [hblocked])

theorem Clean.bind_stuck {p : LockProgram Λ σ α} {k : α → LockProgram Λ σ β}
    (hp : Clean held p) (hk : ∀ result, Stuck held lock (k result)) :
    Stuck held lock (p >>= k) := by
  intro s
  rw [exec_bind]
  rcases hp s with hpanic | ⟨result, t, hdone⟩
  · exact Or.inl (by rw [hpanic])
  · rw [hdone]
    exact hk result t

theorem Stuck.guarded {guard : Λ} {body : LockProgram Λ σ α} (hguard : guard ∉ held)
    (hbody : Stuck (guard :: held) lock body) : Stuck held lock (guarded guard body) := by
  intro s
  rw [exec_guarded_of_notMem hguard]
  rcases hbody s with hpanic | hblocked
  · exact Or.inl (by rw [hpanic])
  · exact Or.inr (by rw [hblocked])

/-! ## Loops -/

omit [DecidableEq Λ] in
theorem sequence_cons (f : β → LockProgram Λ σ α) (x : β) (xs : List β) :
    sequence f (x :: xs) = (f x >>= fun y => sequence f xs >>= fun ys => pure (y :: ys)) := rfl

theorem Clean.sequence {f : β → LockProgram Λ σ α} {xs : List β}
    (h : ∀ x ∈ xs, Clean held (f x)) : Clean held (sequence f xs) := by
  induction xs with
  | nil => exact Clean.pure []
  | cons x xs ih =>
      have hrest : Clean held (LockProgram.sequence f xs) :=
        ih fun y hy => h y (List.mem_cons_of_mem x hy)
      exact (h x List.mem_cons_self).bind fun y => hrest.map (List.cons y)

/-- A loop of reads returns what each of them reads in the same state. -/
theorem exec_sequence_reads {f : β → LockProgram Λ σ α} {g : β → σ → α}
    (h : ∀ x s, (f x).exec held s = .finished (g x s) s held) (xs : List β) (s : σ) :
    (sequence f xs).exec held s = .finished (xs.map fun x => g x s) s held := by
  induction xs with
  | nil => rfl
  | cons x xs ih =>
      rw [sequence_cons, exec_bind, h]
      simp only [exec_bind, ih]
      rfl

/-- A loop that meets a blocking iteration, and finishes every other, blocks there. -/
theorem exec_sequence_blocked {f : β → LockProgram Λ σ α} {xs : List β} {x : β} {lock : Λ}
    (hx : x ∈ xs) (hblocked : ∀ s, (f x).exec held s = .blocked lock)
    (hothers : ∀ y, y ≠ x → ∀ s, ∃ result t, (f y).exec held s = .finished result t held)
    (s : σ) : (sequence f xs).exec held s = .blocked lock := by
  induction xs generalizing s with
  | nil => simp at hx
  | cons y ys ih =>
      rw [sequence_cons, exec_bind]
      by_cases hy : y = x
      · rw [hy, hblocked]
      · obtain ⟨result, t, hdone⟩ := hothers y hy s
        have hmem : x ∈ ys := (List.mem_cons.mp hx).resolve_left (Ne.symm hy)
        have hrest := ih hmem t
        simp only [hdone, exec_bind, hrest]

/-! ## Programs without their locks -/

/-- What a program does when nobody waits for a lock. -/
def unlocked : LockProgram Λ σ α → σ → Option (α × σ)
  | .done result, s => some (result, s)
  | .acquire _ next, s => next.unlocked s
  | .release _ next, s => next.unlocked s
  | .step update next, s => (update s).bind fun t => (next s).unlocked t

omit [DecidableEq Λ] in
theorem unlocked_bind (p : LockProgram Λ σ α) (k : α → LockProgram Λ σ β) (s : σ) :
    (p >>= k).unlocked s = (p.unlocked s).bind fun r => (k r.1).unlocked r.2 := by
  change (p.bind k).unlocked s = _
  induction p generalizing s with
  | done result => rfl
  | acquire lock next ih => exact ih s
  | release lock next ih => exact ih s
  | step update next ih =>
      simp only [bind, unlocked]
      cases update s with
      | none => rfl
      | some t => exact ih s t

omit [DecidableEq Λ] in
theorem unlocked_map (f : α → β) (p : LockProgram Λ σ α) (s : σ) :
    (f <$> p).unlocked s = (p.unlocked s).map fun r => (f r.1, r.2) := by
  have hbind := unlocked_bind p (fun result => .done (f result)) s
  cases h : p.unlocked s with
  | none =>
      rw [h] at hbind
      exact hbind
  | some r =>
      rw [h] at hbind
      exact hbind

omit [DecidableEq Λ] in
theorem unlocked_guarded (lock : Λ) (body : LockProgram Λ σ α) (s : σ) :
    (guarded lock body).unlocked s = body.unlocked s := by
  have hbind := unlocked_bind body (fun result => .release lock (.done result)) s
  cases h : body.unlocked s with
  | none =>
      rw [h] at hbind
      exact hbind
  | some r =>
      rw [h] at hbind
      exact hbind

omit [DecidableEq Λ] in
@[simp] theorem unlocked_update (f : σ → Option σ) (s : σ) :
    (update f : LockProgram Λ σ Unit).unlocked s = (f s).map fun t => ((), t) := by
  cases h : f s with
  | none => simp [update, unlocked, h]
  | some t => simp [update, unlocked, h]

omit [DecidableEq Λ] in
@[simp] theorem unlocked_pure (result : α) (s : σ) :
    (pure result : LockProgram Λ σ α).unlocked s = some (result, s) := rfl

/-- A program that gets through its locks does what it does without them. -/
theorem unlocked_of_exec {p : LockProgram Λ σ α} {s t : σ} {result : α} {held' : List Λ}
    (h : p.exec held s = .finished result t held') : p.unlocked s = some (result, t) := by
  induction p generalizing held s with
  | done result' =>
      cases h
      rfl
  | acquire lock next ih =>
      simp only [exec] at h
      split at h
      · cases h
      · exact ih h
  | release lock next ih => exact ih h
  | step update next ih =>
      simp only [exec] at h
      rw [unlocked]
      split at h
      · cases h
      · rename_i u hu
        rw [hu]
        exact ih s h

/-- Every completed step of the program leaves `view` as it was. -/
def Keeps {γ : Type} (view : σ → γ) (p : LockProgram Λ σ α) : Prop :=
  ∀ s result t, p.unlocked s = some (result, t) → view t = view s

section Keeps

variable {γ : Type} {view : σ → γ}

omit [DecidableEq Λ]

theorem Keeps.pure (result : α) : Keeps view (Pure.pure result : LockProgram Λ σ α) := by
  intro s r t h
  rw [← (Prod.mk.inj (Option.some.inj h)).2]

theorem Keeps.update {f : σ → Option σ} (h : ∀ s t, f s = some t → view t = view s) :
    Keeps view (update f : LockProgram Λ σ Unit) := by
  intro s r t ht
  obtain ⟨u, hu, hdone⟩ := Option.bind_eq_some_iff.mp ht
  rw [← (Prod.mk.inj (Option.some.inj hdone)).2]
  exact h s u hu

theorem Keeps.bind {p : LockProgram Λ σ α} {k : α → LockProgram Λ σ β} (hp : Keeps view p)
    (hk : ∀ result, Keeps view (k result)) : Keeps view (p >>= k) := by
  intro s r t h
  rw [unlocked_bind] at h
  obtain ⟨u, hu, hrest⟩ := Option.bind_eq_some_iff.mp h
  exact (hk u.1 u.2 r t hrest).trans (hp s u.1 u.2 hu)

theorem Keeps.guarded {body : LockProgram Λ σ α} (h : Keeps view body) (lock : Λ) :
    Keeps view (guarded lock body) := by
  intro s r t ht
  rw [unlocked_guarded] at ht
  exact h s r t ht

theorem Keeps.sequence {f : β → LockProgram Λ σ α} (h : ∀ x, Keeps view (f x)) (xs : List β) :
    Keeps view (sequence f xs) := by
  induction xs with
  | nil => exact .pure []
  | cons x xs ih => exact (h x).bind fun y => ih.bind fun ys => .pure (y :: ys)

end Keeps

end LockProgram

end SilverNetwork
