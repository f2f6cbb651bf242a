import SilverNetwork.Foundations.LockProgram
import SilverNetwork.Foundations.RelyGuarantee

/-! Lock programs that run beside each other, one step at a time. The locks are left out: they only
take interleavings away, so that what holds without them holds with them. -/

namespace SilverNetwork

/-! ## What a program does at all -/

namespace AtomicProgram

variable {Act : Type} {Answer : Act → Type} {ρ : Type}

/-- Whatever the answers, the program does only actions in `P` and returns only results in `Q`. -/
def Does (P : Act → Prop) (Q : ρ → Prop) : AtomicProgram Act Answer ρ → Prop
  | .ret result => Q result
  | .act action next => P action ∧ ∀ answer, (next answer).Does P Q

end AtomicProgram

namespace LockProgram

variable {Λ σ α β : Type} {P : (σ → Option σ) → Prop} {Q : α → Prop} {R : β → Prop}

/-- Each step as one action, which answers with the state that it has seen. -/
def atomic : LockProgram Λ σ α → AtomicProgram (σ → Option σ) (fun _ => σ) α
  | .done result => .ret result
  | .acquire _ next => next.atomic
  | .release _ next => next.atomic
  | .step update next => .act update fun s => (next s).atomic

/-- Whatever the states, the program does only updates in `P` and returns only results in `Q`. -/
def Does (P : (σ → Option σ) → Prop) (Q : α → Prop) : LockProgram Λ σ α → Prop
  | .done result => Q result
  | .acquire _ next => next.Does P Q
  | .release _ next => next.Does P Q
  | .step update next => P update ∧ ∀ s, (next s).Does P Q

theorem Does.atomic {p : LockProgram Λ σ α} (h : p.Does P Q) : p.atomic.Does P Q := by
  induction p with
  | done result => exact h
  | acquire lock next ih => exact ih h
  | release lock next ih => exact ih h
  | step update next ih => exact ⟨h.1, fun s => ih s (h.2 s)⟩

theorem Does.pure {result : α} (h : Q result) :
    (Pure.pure result : LockProgram Λ σ α).Does P Q := h

theorem Does.update {f : σ → Option σ} (h : P f) :
    (update f : LockProgram Λ σ Unit).Does P fun _ => True := ⟨h, fun _ => trivial⟩

theorem Does.gets (f : σ → α) (h : P some) :
    (gets f : LockProgram Λ σ α).Does P fun _ => True := ⟨h, fun _ => trivial⟩

theorem Does.bind {p : LockProgram Λ σ β} {k : β → LockProgram Λ σ α} (hp : p.Does P R)
    (hk : ∀ result, R result → (k result).Does P Q) : (p >>= k).Does P Q := by
  change (p.bind k).Does P Q
  induction p with
  | done result => exact hk result hp
  | acquire lock next ih => exact ih hp
  | release lock next ih => exact ih hp
  | step update next ih => exact ⟨hp.1, fun s => ih s (hp.2 s)⟩

theorem Does.map {p : LockProgram Λ σ β} (hp : p.Does P R) {f : β → α}
    (hf : ∀ result, R result → Q (f result)) : (f <$> p).Does P Q :=
  hp.bind hf

theorem Does.guarded {body : LockProgram Λ σ α} (h : body.Does P Q) (lock : Λ) :
    (guarded lock body).Does P Q :=
  Does.bind (k := fun result => .release lock (.done result)) h fun _ hresult => hresult

theorem Does.sequence {f : β → LockProgram Λ σ α} (h : ∀ x, (f x).Does P fun _ => True)
    (xs : List β) : (sequence f xs).Does P fun _ => True := by
  induction xs with
  | nil => trivial
  | cons x xs ih => exact (h x).bind fun y _ => ih.bind fun ys _ => trivial

theorem Does.mono {P' : (σ → Option σ) → Prop} {Q' : α → Prop} {p : LockProgram Λ σ α}
    (h : p.Does P Q) (hP : ∀ f, P f → P' f) (hQ : ∀ result, Q result → Q' result) :
    p.Does P' Q' := by
  induction p with
  | done result => exact hQ result h
  | acquire lock next ih => exact ih h
  | release lock next ih => exact ih h
  | step update next ih => exact ⟨hP update h.1, fun s => ih s (h.2 s)⟩

theorem does_any (p : LockProgram Λ σ α) : p.Does (fun _ => True) fun _ => True := by
  induction p with
  | done result => trivial
  | acquire lock next ih => exact ih
  | release lock next ih => exact ih
  | step update next ih => exact ⟨trivial, ih⟩

/-- What each update leaves as it is, a whole program leaves as it is. -/
theorem Does.unlocked {γ : Type} {view : σ → γ} {p : LockProgram Λ σ α} (h : p.Does P Q)
    (hview : ∀ f, P f → ∀ s t, f s = some t → view t = view s) {s t : σ} {result : α}
    (hrun : p.unlocked s = some (result, t)) : view t = view s ∧ Q result := by
  induction p generalizing s with
  | done result' =>
      obtain ⟨rfl, rfl⟩ := Prod.mk.inj (Option.some.inj hrun)
      exact ⟨rfl, h⟩
  | acquire lock next ih => exact ih h hrun
  | release lock next ih => exact ih h hrun
  | step update next ih =>
      obtain ⟨u, hu, hrest⟩ := Option.bind_eq_some_iff.mp hrun
      obtain ⟨hsame, hresult⟩ := ih s (h.2 s) hrest
      exact ⟨hsame.trans (hview update h.1 s u hu), hresult⟩

/-! ## Many callers -/

/-- The operations of an object whose locks are left out. -/
def object {δ Op ρ : Type} (program : Op → LockProgram Λ σ ρ) (elapse : δ → σ → σ) :
    SharedObject σ Unit δ Op ρ (σ → Option σ) fun _ => σ where
  perform update _ s :=
    match update s with
    | some t => (some s, t)
    | none => (none, s)
  program op := (program op).atomic
  elapse := elapse

variable {δ Op ρ : Type} {program : Op → LockProgram Λ σ ρ} {elapse : δ → σ → σ}

theorem object_perform {f : σ → Option σ} {s t : σ} (h : f s = some t) :
    (object program elapse).perform f () s = (some s, t) := by
  simp only [object, h]

/-- What an action has seen, and what it has made of it. -/
theorem of_object_perform {f : σ → Option σ} {u : Unit} {s t s' : σ}
    (h : (object program elapse).perform f u s = (some s', t)) : s' = s ∧ f s = some t := by
  simp only [object] at h
  split at h
  · rename_i t' hf
    obtain ⟨hs, rfl⟩ := Prod.mk.inj h
    exact ⟨(Option.some.inj hs).symm, hf⟩
  · cases (Prod.mk.inj h).1

/-- An action that panics leaves the state as it is. -/
theorem of_object_panic {f : σ → Option σ} {u : Unit} {s t : σ}
    (h : (object program elapse).perform f u s = (none, t)) : t = s := by
  simp only [object] at h
  split at h
  · cases (Prod.mk.inj h).1
  · exact (Prod.mk.inj h).2.symm

/-- A caller whom nobody interrupts does what the program does without its locks. -/
theorem alone_of_unlocked {p : LockProgram Λ σ α} {s t : σ} {result : α}
    (h : p.unlocked s = some (result, t)) :
    ∃ readings, (object program elapse).alone p.atomic readings s = some (result, t) := by
  induction p generalizing s with
  | done result' => exact ⟨[], h⟩
  | acquire lock next ih => exact ih h
  | release lock next ih => exact ih h
  | step update next ih =>
      obtain ⟨u, hu, hrest⟩ := Option.bind_eq_some_iff.mp h
      obtain ⟨readings, hrest⟩ := ih s hrest
      refine ⟨() :: readings, ?_⟩
      simp only [atomic, SharedObject.alone, object_perform hu]
      exact hrest

/-- What a program does at all is allowed whatever the others do. -/
theorem Does.sound {S : σ → σ → Prop} {Q' : ρ → Prop} {p : LockProgram Λ σ ρ} (h : p.Does P Q')
    (s : σ) : (object program elapse).Sound S (fun f _ => P f) p.atomic s := by
  induction p generalizing s with
  | done result => trivial
  | acquire lock next ih => exact ih h s
  | release lock next ih => exact ih h s
  | step update next ih => exact fun t _ => ⟨h.1, fun _ seen u _ => ih seen (h.2 seen) u⟩

end LockProgram

end SilverNetwork
