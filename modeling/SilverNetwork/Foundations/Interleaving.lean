import Mathlib.Logic.Function.Basic
import SilverNetwork.Foundations.Machine

/-! Callers that run programs of atomic actions on a shared state, where the actions of all of
them interleave in any order. A caller whom nobody interrupts does what its program does alone. -/

namespace SilverNetwork

/-- A program that does one action after the other, each chosen by the answers so far. -/
inductive AtomicProgram (Act : Type) (Answer : Act → Type) (ρ : Type) where
  | ret (result : ρ)
  | act (action : Act) (next : Answer action → AtomicProgram Act Answer ρ)

namespace AtomicProgram

variable {Act : Type} {Answer : Act → Type} {ρ ρ' : Type}

def bind : AtomicProgram Act Answer ρ → (ρ → AtomicProgram Act Answer ρ') →
    AtomicProgram Act Answer ρ'
  | .ret result, k => k result
  | .act action next, k => .act action fun answer => (next answer).bind k

instance : Monad (AtomicProgram Act Answer) where
  pure := .ret
  bind := bind

/-- The program of a single action. -/
def once (action : Act) : AtomicProgram Act Answer (Answer action) := .act action .ret

@[simp] theorem pure_eq (result : ρ) :
    (pure result : AtomicProgram Act Answer ρ) = .ret result := rfl

@[simp] theorem ret_bind (result : ρ) (k : ρ → AtomicProgram Act Answer ρ') :
    AtomicProgram.ret result >>= k = k result := rfl

@[simp] theorem once_bind (action : Act) (k : Answer action → AtomicProgram Act Answer ρ) :
    once action >>= k = .act action k := rfl

@[simp] theorem act_bind (action : Act) (next : Answer action → AtomicProgram Act Answer ρ)
    (k : ρ → AtomicProgram Act Answer ρ') :
    AtomicProgram.act action next >>= k = .act action fun answer => next answer >>= k := rfl

end AtomicProgram

/-- An object whose operations are programs. An action has readings of the outside world, and
one without an answer panics; between two actions something may happen to the state by itself. -/
structure SharedObject (σ ε δ Op ρ Act : Type) (Answer : Act → Type) where
  perform : (action : Act) → ε → σ → Option (Answer action) × σ
  program : Op → AtomicProgram Act Answer ρ
  elapse : δ → σ → σ

/-- A call that has not returned, with what is left of its program, and with the shared state
that it was made in. -/
structure Thread (σ Op ρ Act : Type) (Answer : Act → Type) where
  op : Op
  calledIn : σ
  rest : AtomicProgram Act Answer ρ

structure Concurrent (σ κ Op ρ Act : Type) (Answer : Act → Type) where
  shared : σ
  threads : κ → Option (Thread σ Op ρ Act Answer)

inductive ConcurrentEvent (ε δ κ Op : Type) where
  | call (caller : κ) (op : Op)
  | act (caller : κ) (readings : ε)
  | elapse (duration : δ)

inductive Progress (ρ : Type) where
  | running
  | returned (result : ρ)
  | panicked
  deriving DecidableEq

namespace Concurrent

variable {σ ε δ κ Op ρ Act : Type} {Answer : Act → Type}

/-- Nobody has called yet. -/
def start (shared : σ) : Concurrent σ κ Op ρ Act Answer where
  shared := shared
  threads := fun _ => none

variable [DecidableEq κ]

/-- What is left of a caller's program, if anything, and what it has made of the state. -/
def resume (x : Concurrent σ κ Op ρ Act Answer) (caller : κ) (shared : σ)
    (thread : Option (Thread σ Op ρ Act Answer)) : Concurrent σ κ Op ρ Act Answer where
  shared := shared
  threads := Function.update x.threads caller thread

@[simp] theorem resume_threads (x : Concurrent σ κ Op ρ Act Answer) (caller : κ) (shared : σ)
    (thread : Option (Thread σ Op ρ Act Answer)) :
    (x.resume caller shared thread).threads caller = thread := by
  simp [resume]

theorem resume_threads_of_ne {caller caller' : κ} (h : caller' ≠ caller)
    (x : Concurrent σ κ Op ρ Act Answer) (shared : σ)
    (thread : Option (Thread σ Op ρ Act Answer)) :
    (x.resume caller shared thread).threads caller' = x.threads caller' := by
  simp [resume, h]

/-- What holds of a caller's thread, and of those of all others, holds of every thread. -/
theorem forall_resume {x : Concurrent σ κ Op ρ Act Answer} {caller : κ} {shared : σ}
    {resumed : Option (Thread σ Op ρ Act Answer)} {P : κ → Thread σ Op ρ Act Answer → Prop}
    (hown : ∀ thread, resumed = some thread → P caller thread)
    (hothers : ∀ caller' thread, caller' ≠ caller → x.threads caller' = some thread →
      P caller' thread) (caller' : κ) (thread : Thread σ Op ρ Act Answer)
    (hbusy : (x.resume caller shared resumed).threads caller' = some thread) :
    P caller' thread := by
  by_cases hsame : caller' = caller
  · subst hsame
    exact hown thread (by simpa using hbusy)
  · rw [resume_threads_of_ne hsame] at hbusy
    exact hothers caller' thread hsame hbusy

@[simp] theorem resume_resume (x : Concurrent σ κ Op ρ Act Answer) (caller : κ)
    (shared shared' : σ) (thread thread' : Option (Thread σ Op ρ Act Answer)) :
    (x.resume caller shared thread).resume caller shared' thread' =
      x.resume caller shared' thread' := by
  simp [resume]

/-- The action that a step is about to do. -/
def due (x : Concurrent σ κ Op ρ Act Answer) : ConcurrentEvent ε δ κ Op → Option Act
  | .act caller _ => (x.threads caller).bind fun thread =>
      match thread.rest with
      | .ret _ => none
      | .act action _ => some action
  | _ => none

def step (O : SharedObject σ ε δ Op ρ Act Answer) (x : Concurrent σ κ Op ρ Act Answer) :
    ConcurrentEvent ε δ κ Op → Option (Progress ρ × Concurrent σ κ Op ρ Act Answer)
  | .call caller op =>
      match x.threads caller with
      | some _ => none
      | none => some (.running, x.resume caller x.shared (some ⟨op, x.shared, O.program op⟩))
  | .act caller readings =>
      match x.threads caller with
      | none => none
      | some thread =>
          match thread.rest with
          | .ret result => some (.returned result, x.resume caller x.shared none)
          | .act action next =>
              match O.perform action readings x.shared with
              | (some answer, s) =>
                  some (.running, x.resume caller s (some { thread with rest := next answer }))
              | (none, s) => some (.panicked, x.resume caller s none)
  | .elapse duration => some (.running, { x with shared := O.elapse duration x.shared })

end Concurrent

namespace SharedObject

variable {σ ε δ κ Op ρ ρ' Act : Type} {Answer : Act → Type}

def machine (κ : Type) [DecidableEq κ] (O : SharedObject σ ε δ Op ρ Act Answer) :
    Machine (Concurrent σ κ Op ρ Act Answer) (ConcurrentEvent ε δ κ Op) (Progress ρ) where
  step := Concurrent.step O

variable [DecidableEq κ] {O : SharedObject σ ε δ Op ρ Act Answer}
  {x y : Concurrent σ κ Op ρ Act Answer}

omit [DecidableEq κ] in
theorem due_eq {caller : κ} {readings : ε} {thread : Thread σ Op ρ Act Answer} {action : Act}
    {next : Answer action → AtomicProgram Act Answer ρ} (hbusy : x.threads caller = some thread)
    (hdue : thread.rest = .act action next) :
    x.due (.act caller readings : ConcurrentEvent ε δ κ Op) = some action := by
  simp [Concurrent.due, hbusy, hdue]

/-- The kinds of steps. -/
inductive Rule (O : SharedObject σ ε δ Op ρ Act Answer) (x : Concurrent σ κ Op ρ Act Answer) :
    ConcurrentEvent ε δ κ Op → Progress ρ → Concurrent σ κ Op ρ Act Answer → Prop where
  | call (caller : κ) (op : Op) (idle : x.threads caller = none) :
      Rule O x (.call caller op) .running
        (x.resume caller x.shared (some ⟨op, x.shared, O.program op⟩))
  | act (caller : κ) (readings : ε) (thread : Thread σ Op ρ Act Answer) (action : Act)
      (next : Answer action → AtomicProgram Act Answer ρ) (answer : Answer action) (s : σ)
      (busy : x.threads caller = some thread) (due : thread.rest = .act action next)
      (performs : O.perform action readings x.shared = (some answer, s)) :
      Rule O x (.act caller readings) .running
        (x.resume caller s (some { thread with rest := next answer }))
  | panic (caller : κ) (readings : ε) (thread : Thread σ Op ρ Act Answer) (action : Act)
      (next : Answer action → AtomicProgram Act Answer ρ) (s : σ)
      (busy : x.threads caller = some thread) (due : thread.rest = .act action next)
      (performs : O.perform action readings x.shared = (none, s)) :
      Rule O x (.act caller readings) .panicked (x.resume caller s none)
  | finish (caller : κ) (readings : ε) (thread : Thread σ Op ρ Act Answer) (result : ρ)
      (busy : x.threads caller = some thread) (due : thread.rest = .ret result) :
      Rule O x (.act caller readings) (.returned result) (x.resume caller x.shared none)
  | elapse (duration : δ) :
      Rule O x (.elapse duration) .running { x with shared := O.elapse duration x.shared }

theorem rule_of_step {e : ConcurrentEvent ε δ κ Op} {r : Progress ρ}
    (h : x.step O e = some (r, y)) : Rule O x e r y := by
  unfold Concurrent.step at h
  split at h
  case h_1 caller op =>
      split at h
      · cases h
      · rename_i idle
        obtain ⟨rfl, rfl⟩ := Prod.mk.inj (Option.some.inj h)
        exact .call caller op idle
  case h_2 caller readings =>
      split at h
      · cases h
      · rename_i thread busy
        split at h
        · rename_i result due
          obtain ⟨rfl, rfl⟩ := Prod.mk.inj (Option.some.inj h)
          exact .finish caller readings thread result busy due
        · rename_i action next due
          split at h
          · rename_i answer s performs
            obtain ⟨rfl, rfl⟩ := Prod.mk.inj (Option.some.inj h)
            exact .act caller readings thread action next answer s busy due performs
          · rename_i s performs
            obtain ⟨rfl, rfl⟩ := Prod.mk.inj (Option.some.inj h)
            exact .panic caller readings thread action next s busy due performs
  case h_3 duration =>
      obtain ⟨rfl, rfl⟩ := Prod.mk.inj (Option.some.inj h)
      exact .elapse duration

/-- A thread goes on with a call that has been made before, or begins with one. -/
theorem Rule.thread {e : ConcurrentEvent ε δ κ Op} {r : Progress ρ} (h : Rule O x e r y)
    {caller : κ} {thread : Thread σ Op ρ Act Answer} (hbusy : y.threads caller = some thread) :
    (∃ before, x.threads caller = some before ∧ before.op = thread.op ∧
      before.calledIn = thread.calledIn) ∨
    e = .call caller thread.op ∧ thread.calledIn = x.shared := by
  cases h with
  | elapse duration => exact .inl ⟨thread, hbusy, rfl, rfl⟩
  | call caller' op idle =>
      by_cases hsame : caller = caller'
      · subst hsame
        obtain rfl : _ = thread := by simpa using hbusy
        exact .inr ⟨rfl, rfl⟩
      · rw [Concurrent.resume_threads_of_ne hsame] at hbusy
        exact .inl ⟨thread, hbusy, rfl, rfl⟩
  | act caller' readings before action next answer s busy due performs =>
      by_cases hsame : caller = caller'
      · subst hsame
        obtain rfl : _ = thread := by simpa using hbusy
        exact .inl ⟨before, busy, rfl, rfl⟩
      · rw [Concurrent.resume_threads_of_ne hsame] at hbusy
        exact .inl ⟨thread, hbusy, rfl, rfl⟩
  | panic caller' | finish caller' =>
      by_cases hsame : caller = caller'
      · subst hsame
        simp at hbusy
      · rw [Concurrent.resume_threads_of_ne hsame] at hbusy
        exact .inl ⟨thread, hbusy, rfl, rfl⟩

/-- What a step makes of the state. -/
theorem Rule.shared {e : ConcurrentEvent ε δ κ Op} {r : Progress ρ} (h : Rule O x e r y) :
    y.shared = x.shared ∨ (∃ duration, y.shared = O.elapse duration x.shared) ∨
    ∃ caller readings thread action next, e = .act caller readings ∧
      x.threads caller = some thread ∧ thread.rest = .act action next ∧
      y.shared = (O.perform action readings x.shared).2 := by
  cases h with
  | call | finish => exact .inl rfl
  | elapse duration => exact .inr (.inl ⟨duration, rfl⟩)
  | act caller readings thread action next _ _ busy due performs
  | panic caller readings thread action next _ busy due performs =>
      refine .inr (.inr ⟨caller, readings, thread, action, next, rfl, busy, due, ?_⟩)
      rw [performs]
      rfl

/-- Only a step with an action that is due does one. -/
theorem Rule.shared_due {e : ConcurrentEvent ε δ κ Op} {r : Progress ρ} (h : Rule O x e r y) :
    x.due e = none ∧ (y.shared = x.shared ∨ ∃ duration, y.shared = O.elapse duration x.shared) ∨
    ∃ caller readings thread action next, x.due e = some action ∧
      x.threads caller = some thread ∧ thread.rest = .act action next ∧
      y.shared = (O.perform action readings x.shared).2 := by
  cases h with
  | call => exact .inl ⟨rfl, .inl rfl⟩
  | elapse duration => exact .inl ⟨rfl, .inr ⟨duration, rfl⟩⟩
  | finish caller readings thread result busy due =>
      refine .inl ⟨?_, .inl rfl⟩
      simp [Concurrent.due, busy, due]
  | act caller readings thread action next _ _ busy due performs
  | panic caller readings thread action next _ busy due performs =>
      refine .inr ⟨caller, readings, thread, action, next, due_eq busy due, busy, due, ?_⟩
      rw [performs]
      rfl

/-- The action that is due is the one that is performed. -/
theorem Rule.performs {caller : κ} {readings : ε} {r : Progress ρ}
    {thread : Thread σ Op ρ Act Answer} {action : Act}
    {next : Answer action → AtomicProgram Act Answer ρ}
    (h : Rule O x (.act caller readings) r y) (hbusy : x.threads caller = some thread)
    (hdue : thread.rest = .act action next) :
    y.shared = (O.perform action readings x.shared).2 := by
  cases h with
  | finish _ _ thread' _ busy due =>
      obtain rfl := Option.some.inj (hbusy.symm.trans busy)
      cases hdue.symm.trans due
  | act _ _ thread' action' _ _ _ busy due performs
  | panic _ _ thread' action' _ _ busy due performs =>
      obtain rfl := Option.some.inj (hbusy.symm.trans busy)
      obtain ⟨rfl, _⟩ := AtomicProgram.act.inj (hdue.symm.trans due)
      rw [performs]
      rfl

/-! ## A caller alone -/

variable {s t : σ}

/-- What a program does with the state if nothing comes between its actions, which have the
given readings. -/
def alone (O : SharedObject σ ε δ Op ρ Act Answer) :
    AtomicProgram Act Answer ρ' → List ε → σ → Option (ρ' × σ)
  | .ret result, [], s => some (result, s)
  | .act action next, readings :: rest, s =>
      match O.perform action readings s with
      | (some answer, t) => O.alone (next answer) rest t
      | (none, _) => none
  | _, _, _ => none

omit [DecidableEq κ] in
theorem alone_once_bind {action : Act} {k : Answer action → AtomicProgram Act Answer ρ'}
    {readings : ε} {answer : Answer action}
    (h : O.perform action readings s = (some answer, t)) (rest : List ε) :
    O.alone (AtomicProgram.once action >>= k) (readings :: rest) s = O.alone (k answer) rest t := by
  simp only [AtomicProgram.once_bind, alone, h]

omit [DecidableEq κ] in
theorem alone_bind {ρ'' : Type} {p : AtomicProgram Act Answer ρ'}
    {k : ρ' → AtomicProgram Act Answer ρ''} {first : List ε} {result : ρ'}
    (h : O.alone p first s = some (result, t)) (rest : List ε) :
    O.alone (p >>= k) (first ++ rest) s = O.alone (k result) rest t := by
  induction p generalizing first s with
  | ret result' =>
      cases first with
      | nil =>
          obtain ⟨rfl, rfl⟩ := Prod.mk.inj (Option.some.inj h)
          rfl
      | cons => cases h
  | act action next ih =>
      cases first with
      | nil => cases h
      | cons readings first =>
          simp only [AtomicProgram.act_bind, List.cons_append, alone] at h ⊢
          split at h
          · rename_i answer u hperform
            exact ih answer h
          · cases h

/-- A caller whom nobody interrupts does what is left of its program alone, and returns. -/
theorem run_alone {p : AtomicProgram Act Answer ρ} {readings : List ε} {result : ρ}
    {caller : κ} {op : Op} {calledIn : σ} (last : ε)
    (hbusy : x.threads caller = some ⟨op, calledIn, p⟩)
    (h : O.alone p readings x.shared = some (result, s)) :
    ∃ calls, (O.machine κ).Run x calls (x.resume caller s none) ∧
      calls.map Call.event = (readings ++ [last]).map (.act caller) ∧
      ∃ c ∈ calls, c.result = .returned result := by
  induction p generalizing readings x with
  | ret result' =>
      cases readings with
      | nil =>
          obtain ⟨rfl, rfl⟩ := Prod.mk.inj (Option.some.inj h)
          have hstep : (O.machine κ).step x (.act caller last) =
              some (.returned result', x.resume caller x.shared none) := by
            simp [machine, Concurrent.step, hbusy]
          exact ⟨_, .of_step .start hstep, rfl, _, List.mem_singleton_self _, rfl⟩
      | cons => cases h
  | act action next ih =>
      cases readings with
      | nil => cases h
      | cons first readings =>
          simp only [alone] at h
          split at h
          · rename_i answer t hperform
            have hstep : (O.machine κ).step x (.act caller first) = some (.running,
                x.resume caller t (some ⟨op, calledIn, next answer⟩)) := by
              simp [machine, Concurrent.step, hbusy, hperform]
            obtain ⟨calls, hrun, hevents, c, hc, hresult⟩ :=
              ih answer (Concurrent.resume_threads x caller t _) h
            rw [Concurrent.resume_resume] at hrun
            exact ⟨_, (Machine.Run.of_step .start hstep).append hrun, by simp [hevents], c,
              List.mem_append_right _ hc, hresult⟩
          · cases h

/-- A call that nobody interrupts. -/
theorem run_call_alone {op : Op} {readings : List ε} {result : ρ} {caller : κ} (last : ε)
    (hidle : x.threads caller = none)
    (h : O.alone (O.program op) readings x.shared = some (result, s)) :
    ∃ calls, (O.machine κ).Run x calls { x with shared := s } ∧
      calls.map Call.event = .call caller op :: (readings ++ [last]).map (.act caller) ∧
      ∃ c ∈ calls, c.result = .returned result := by
  have hstep : (O.machine κ).step x (.call caller op) = some (.running,
      x.resume caller x.shared (some ⟨op, x.shared, O.program op⟩)) := by
    simp [machine, Concurrent.step, hidle]
  obtain ⟨calls, hrun, hevents, c, hc, hresult⟩ :=
    run_alone last (Concurrent.resume_threads x caller x.shared _) h
  have hback : x.resume caller s none = { x with shared := s } := by
    simp [Concurrent.resume, ← hidle]
  rw [Concurrent.resume_resume, hback] at hrun
  exact ⟨_, (Machine.Run.of_step .start hstep).append hrun, by simp [hevents], c,
    List.mem_append_right _ hc, hresult⟩

end SharedObject

end SilverNetwork
