import Mathlib.Logic.Function.Basic
import SilverNetwork.Foundations.Interleaving

/-! Tasks that share a state. A step takes a task from one point at which it waits to the next, with
an input of the outside world, while all the others stand still. -/

namespace SilverNetwork

/-- A computation under a lock, whose answer may be the state after it; one that panics leaves what
it has written until then. -/
abbrev Update (σ : Type) : Type → Type := Except σ

namespace Update

variable {σ τ α : Type}

/-- What is left of the state, after a panic or without one. -/
def left : Update σ σ → σ
  | .ok s => s
  | .error s => s

/-- A value to go on with; without it there is a panic. -/
def orPanic (s : σ) : Option α → Update σ α
  | some value => .ok value
  | none => .error s

/-- The update of a part, put back into the whole. -/
def within (put : σ → τ) : Update σ σ → Update τ τ
  | .ok s => .ok (put s)
  | .error s => .error (put s)

@[simp] theorem left_ok (s : σ) : left (.ok s) = s := rfl

@[simp] theorem left_error (s : σ) : left (.error s) = s := rfl

@[simp] theorem left_within (put : σ → τ) (u : Update σ σ) : (u.within put).left = put u.left := by
  cases u <;> rfl

@[simp] theorem toOption_orPanic (s : σ) (o : Option α) : (orPanic s o).toOption = o := by
  cases o <;> rfl

@[simp] theorem toOption_within (put : σ → τ) (u : Update σ σ) :
    (u.within put).toOption = u.toOption.map put := by
  cases u <;> rfl

@[simp] theorem toOption_bind {β : Type} (u : Update σ α) (f : α → Update σ β) :
    (u >>= f).toOption = u.toOption >>= fun value => (f value).toOption := by
  cases u <;> rfl

@[simp] theorem toOption_pure (value : α) : (pure value : Update σ α).toOption = some value := rfl

/-- What is left where nothing panics. -/
theorem left_of_toOption {s : σ} {u : Update σ σ} (h : u.toOption = some s) : left u = s := by
  cases u with
  | ok t => exact Option.some.inj h
  | error t => cases h

/-- What holds after the first update and survives the second holds after both. -/
theorem left_bind {I : σ → Prop} {u : Update σ σ} {f : σ → Update σ σ} (hu : I (left u))
    (hf : ∀ s, I s → I (left (f s))) : I (left (u >>= f)) := by
  cases u with
  | ok s => exact hf s hu
  | error s => exact hu

/-- An update that may panic before its last write. -/
theorem left_orPanic_bind {I : σ → Prop} {s : σ} {o : Option α} {f : α → Update σ σ} (hs : I s)
    (hf : ∀ value, o = some value → I (left (f value))) :
    I (left (orPanic s o >>= f)) := by
  cases o with
  | some value => exact hf value rfl
  | none => exact hs

end Update

/-- What a step makes of a task, and of the state. -/
inductive TaskStep (π ρ σ : Type) where
  | running (task : π) (s : σ)
  | finished (result : ρ) (s : σ)
  | panicked (s : σ)

namespace TaskStep

variable {π π' ρ ρ' σ : Type}

def state : TaskStep π ρ σ → σ
  | .running _ s => s
  | .finished _ s => s
  | .panicked s => s

def task : TaskStep π ρ σ → Option π
  | .running task _ => some task
  | .finished _ _ => none
  | .panicked _ => none

def progress : TaskStep π ρ σ → Progress ρ
  | .running _ _ => .running
  | .finished result _ => .returned result
  | .panicked _ => .panicked

/-- The task goes on as another one, or ends with another result. -/
def map (f : π → π') (g : ρ → ρ') : TaskStep π ρ σ → TaskStep π' ρ' σ
  | .running task s => .running (f task) s
  | .finished result s => .finished (g result) s
  | .panicked s => .panicked s

/-- The task ends after the update. -/
def finish (result : ρ) : Update σ σ → TaskStep π ρ σ
  | .ok s => .finished result s
  | .error s => .panicked s

/-- The task goes on after the update. -/
def proceed (task : π) : Update σ σ → TaskStep π ρ σ
  | .ok s => .running task s
  | .error s => .panicked s

@[simp] theorem state_running (task : π) (s : σ) :
    (running task s : TaskStep π ρ σ).state = s := rfl

@[simp] theorem state_finished (result : ρ) (s : σ) :
    (finished result s : TaskStep π ρ σ).state = s := rfl

@[simp] theorem state_panicked (s : σ) : (panicked s : TaskStep π ρ σ).state = s := rfl

@[simp] theorem state_map (f : π → π') (g : ρ → ρ') (step : TaskStep π ρ σ) :
    (step.map f g).state = step.state := by
  cases step <;> rfl

@[simp] theorem state_finish (result : ρ) (u : Update σ σ) :
    (finish result u : TaskStep π ρ σ).state = u.left := by
  cases u <;> rfl

theorem finish_of_toOption {result : ρ} {u : Update σ σ} {s : σ} (h : u.toOption = some s) :
    (finish result u : TaskStep π ρ σ) = .finished result s := by
  cases u with
  | ok t =>
      obtain rfl := Option.some.inj h
      rfl
  | error t => cases h

theorem proceed_of_toOption {task : π} {u : Update σ σ} {s : σ} (h : u.toOption = some s) :
    (proceed task u : TaskStep π ρ σ) = .running task s := by
  cases u with
  | ok t =>
      obtain rfl := Option.some.inj h
      rfl
  | error t => cases h

@[simp] theorem state_proceed (task : π) (u : Update σ σ) :
    (proceed task u : TaskStep π ρ σ).state = u.left := by
  cases u <;> rfl

theorem eq_of_map_running {f : π → π'} {g : ρ → ρ'} {step : TaskStep π ρ σ} {task : π'} {s : σ}
    (h : step.map f g = .running task s) : ∃ task', task = f task' := by
  cases step with
  | running task' s' =>
      obtain ⟨rfl, _⟩ := running.inj h
      exact ⟨task', rfl⟩
  | finished | panicked => cases h

theorem finish_ne_running {result : ρ} {u : Update σ σ} {task : π} {s : σ} :
    (finish result u : TaskStep π ρ σ) ≠ .running task s := by
  cases u <;> simp [finish]

theorem task_of_proceed {task task' : π} {u : Update σ σ} {s : σ}
    (h : (proceed task u : TaskStep π ρ σ) = .running task' s) : task' = task := by
  cases u with
  | ok t => exact (running.inj h).1.symm
  | error t => cases h

theorem eq_running_of_task {step : TaskStep π ρ σ} {task : π} (h : step.task = some task) :
    ∃ s, step = .running task s := by
  cases step with
  | running task' s =>
      obtain rfl := Option.some.inj h
      exact ⟨s, rfl⟩
  | finished | panicked => cases h

end TaskStep

/-- The tasks that may be started, and what they do; a task does not take every input. -/
structure TaskSystem (σ ε Op π ρ : Type) where
  initial : Op → π
  resume : π → ε → σ → Option (TaskStep π ρ σ)

structure TaskPool (σ κ π : Type) where
  shared : σ
  tasks : κ → Option π

/-- A task is started by its first step: until then it only waits. -/
inductive TaskEvent (ε κ Op : Type) where
  | start (id : κ) (op : Op) (input : ε)
  | resume (id : κ) (input : ε)

namespace TaskPool

variable {σ ε κ Op π ρ : Type}

/-- No task has been started yet. -/
def idle (shared : σ) : TaskPool σ κ π where
  shared := shared
  tasks := fun _ => none

variable [DecidableEq κ]

def advance (x : TaskPool σ κ π) (id : κ) (step : TaskStep π ρ σ) : Progress ρ × TaskPool σ κ π :=
  (step.progress, { shared := step.state, tasks := Function.update x.tasks id step.task })

def step (T : TaskSystem σ ε Op π ρ) (x : TaskPool σ κ π) :
    TaskEvent ε κ Op → Option (Progress ρ × TaskPool σ κ π)
  | .start id op input =>
      match x.tasks id with
      | some _ => none
      | none => (T.resume (T.initial op) input x.shared).map (x.advance id)
  | .resume id input =>
      match x.tasks id with
      | none => none
      | some task => (T.resume task input x.shared).map (x.advance id)

end TaskPool

namespace TaskSystem

variable {σ ε κ Op π ρ : Type} [DecidableEq κ]

def machine (κ : Type) [DecidableEq κ] (T : TaskSystem σ ε Op π ρ) :
    Machine (TaskPool σ κ π) (TaskEvent ε κ Op) (Progress ρ) where
  step := TaskPool.step T

variable {T : TaskSystem σ ε Op π ρ} {x y : TaskPool σ κ π} {e : TaskEvent ε κ Op}
  {r : Progress ρ} {calls : List (Call (TaskPool σ κ π) (TaskEvent ε κ Op) (Progress ρ))}

/-- The kinds of steps. -/
inductive Rule (T : TaskSystem σ ε Op π ρ) (x : TaskPool σ κ π) :
    TaskEvent ε κ Op → Progress ρ → TaskPool σ κ π → Prop where
  | start (id : κ) (op : Op) (input : ε) (step : TaskStep π ρ σ) (idle : x.tasks id = none)
      (resumes : T.resume (T.initial op) input x.shared = some step) :
      Rule T x (.start id op input) (x.advance id step).1 (x.advance id step).2
  | resume (id : κ) (input : ε) (task : π) (step : TaskStep π ρ σ)
      (busy : x.tasks id = some task) (resumes : T.resume task input x.shared = some step) :
      Rule T x (.resume id input) (x.advance id step).1 (x.advance id step).2

theorem rule_of_step (h : x.step T e = some (r, y)) : Rule T x e r y := by
  unfold TaskPool.step at h
  split at h
  case h_1 id op input =>
      split at h
      · cases h
      · rename_i idle
        obtain ⟨step, resumes, hstep⟩ := Option.map_eq_some_iff.mp h
        obtain ⟨rfl, rfl⟩ := Prod.mk.inj hstep
        exact .start id op input step idle resumes
  case h_2 id input =>
      split at h
      · cases h
      · rename_i task busy
        obtain ⟨step, resumes, hstep⟩ := Option.map_eq_some_iff.mp h
        obtain ⟨rfl, rfl⟩ := Prod.mk.inj hstep
        exact .resume id input task step busy resumes

/-! ## A task alone -/

/-- What a task answers, and makes of the state, if nobody else comes between its steps. -/
def alone (T : TaskSystem σ ε Op π ρ) : π → List ε → σ → Option (ρ × σ)
  | _, [], _ => none
  | task, input :: inputs, s =>
      match T.resume task input s with
      | some (.running task s) => T.alone task inputs s
      | some (.finished result s) => if inputs.isEmpty then some (result, s) else none
      | _ => none

omit [DecidableEq κ] in
theorem alone_of_running {task task' : π} {input : ε} {inputs : List ε} {s s' : σ}
    (h : T.resume task input s = some (.running task' s')) :
    T.alone task (input :: inputs) s = T.alone task' inputs s' := by
  simp [alone, h]

omit [DecidableEq κ] in
theorem alone_of_finished {task : π} {input : ε} {result : ρ} {s s' : σ}
    (h : T.resume task input s = some (.finished result s')) :
    T.alone task [input] s = some (result, s') := by
  simp [alone, h]

/-- A task whom nobody interrupts does what it does alone. -/
theorem run_alone {id : κ} {task : π} {inputs : List ε} {result : ρ} {s : σ}
    (hbusy : x.tasks id = some task) (h : T.alone task inputs x.shared = some (result, s)) :
    ∃ calls, (T.machine κ).Run x calls ⟨s, Function.update x.tasks id none⟩ ∧
      calls.map Call.event = inputs.map (.resume id) ∧
      ∃ c ∈ calls, c.result = .returned result := by
  induction inputs generalizing x task with
  | nil => simp [alone] at h
  | cons input inputs ih =>
      unfold alone at h
      split at h
      · rename_i task' s' hresume
        have hstep : (T.machine κ).step x (.resume id input) =
            some (.running, ⟨s', Function.update x.tasks id (some task')⟩) := by
          simp [machine, TaskPool.step, hbusy, hresume, TaskPool.advance, TaskStep.progress,
            TaskStep.task]
        obtain ⟨calls, hrun, hevents, c, hc, hresult⟩ :=
          ih (x := ⟨s', Function.update x.tasks id (some task')⟩) (by simp) h
        rw [Function.update_idem] at hrun
        exact ⟨_, (Machine.Run.of_step .start hstep).append hrun, by simp [hevents], c,
          List.mem_append_right _ hc, hresult⟩
      · rename_i result' s' hresume
        split at h
        case isFalse => cases h
        rename_i hlast
        obtain ⟨rfl, rfl⟩ := Prod.mk.inj (Option.some.inj h)
        obtain rfl := List.isEmpty_iff.mp hlast
        have hstep : (T.machine κ).step x (.resume id input) =
            some (.returned result', ⟨s', Function.update x.tasks id none⟩) := by
          simp [machine, TaskPool.step, hbusy, hresume, TaskPool.advance, TaskStep.progress,
            TaskStep.task]
        exact ⟨_, .of_step .start hstep, rfl, _, List.mem_singleton_self _, rfl⟩
      · cases h

/-- A call whose task nobody interrupts. -/
theorem run_call_alone {id : κ} {op : Op} {inputs : List ε} {result : ρ} {s : σ}
    (hidle : x.tasks id = none) (h : T.alone (T.initial op) inputs x.shared = some (result, s)) :
    ∃ calls, (T.machine κ).Run x calls { x with shared := s } ∧
      ∃ c ∈ calls, c.result = .returned result := by
  have hback : Function.update x.tasks id none = x.tasks := by
    simp [← hidle]
  cases inputs with
  | nil => cases h
  | cons input inputs =>
      have hstep : (T.machine κ).step x (.start id op input) =
          (T.resume (T.initial op) input x.shared).map (x.advance id) := by
        simp [machine, TaskPool.step, hidle]
      unfold alone at h
      split at h
      · rename_i task s' hresume
        rw [hresume] at hstep
        have hbusy : (x.advance id (.running task s' : TaskStep π ρ σ)).2.tasks id = some task := by
          simp [TaskPool.advance, TaskStep.task]
        obtain ⟨calls, hrun, _, c, hc, hresult⟩ := run_alone hbusy h
        simp only [TaskPool.advance, Function.update_idem, hback] at hrun
        exact ⟨_, (Machine.Run.of_step .start hstep).append hrun, c,
          List.mem_append_right _ hc, hresult⟩
      · rename_i result' s' hresume
        split at h
        case isFalse => cases h
        obtain ⟨rfl, rfl⟩ := Prod.mk.inj (Option.some.inj h)
        rw [hresume] at hstep
        have hrun := Machine.Run.of_step .start hstep
        simp only [TaskStep.task, hback] at hrun
        exact ⟨_, hrun, _, List.mem_singleton_self _, rfl⟩
      · cases h

/-! ## What holds in every run -/

/-- What every step of every task keeps of the state holds in every run. -/
theorem run_shared {I : σ → Prop} (h : (T.machine κ).Run x calls y) (hx : I x.shared)
    (hstep : ∀ task input s step, I s → T.resume task input s = some step → I step.state) :
    I y.shared := by
  refine h.invariant (I := fun y => I y.shared) hx ?_
  intro c hmakes hpre
  obtain ⟨pre, e, r, post⟩ := c
  have hrule : Rule T pre e r post := rule_of_step hmakes
  cases hrule with
  | start id op input step idle resumes => exact hstep _ input _ step hpre resumes
  | resume id input task step busy resumes => exact hstep task input _ step hpre resumes

/-- The task was started by an operation in a state of which, for what it is now, `J` holds. -/
def StartedIn (J : Op → σ → π → Prop)
    (calls : List (Call (TaskPool σ κ π) (TaskEvent ε κ Op) (Progress ρ))) (id : κ) (task : π) :
    Prop :=
  Since (fun c => ∃ op input, c.event = .start id op input ∧ J op c.pre.shared task)
    (fun d => ∀ op input, d.event ≠ .start id op input) calls

/-- What the first step of an operation makes true of its task, and of the state that it was started
in, and every later step of the task keeps, holds as long as the task runs. -/
theorem run_task {J : Op → σ → π → Prop} {s : σ} (h : (T.machine κ).Run (.idle s) calls x)
    (hstart : ∀ op input s task s',
      T.resume (T.initial op) input s = some (.running task s') → J op s task)
    (hresume : ∀ op started task input s task' s', J op started task →
      T.resume task input s = some (.running task' s') → J op started task') :
    ∀ id task, x.tasks id = some task → StartedIn J calls id task := by
  induction h with
  | start => simp [TaskPool.idle]
  | @call calls c hrun hmakes ih =>
      obtain ⟨pre, e, r, post⟩ := c
      have hrule : Rule T pre e r post := rule_of_step hmakes
      intro id task hbusy
      cases hrule with
      | start id' op input step idle resumes =>
          by_cases hsame : id = id'
          · obtain rfl := hsame
            obtain ⟨s', rfl⟩ := TaskStep.eq_running_of_task (by simpa [TaskPool.advance] using hbusy)
            exact .last ⟨op, input, rfl, hstart op input _ task s' resumes⟩
          · have hbefore : pre.tasks id = some task := by
              simpa [TaskPool.advance, hsame] using hbusy
            refine (ih id task hbefore).concat ?_
            intro op' input' heq
            cases heq
            exact hsame rfl
      | resume id' input before step busy resumes =>
          by_cases hsame : id = id'
          · obtain rfl := hsame
            obtain ⟨s', rfl⟩ := TaskStep.eq_running_of_task (by simpa [TaskPool.advance] using hbusy)
            refine ((ih id before busy).mono ?_).concat (by simp)
            rintro c ⟨op, input', hevent, hJ⟩
            exact ⟨op, input', hevent, hresume op _ before input _ task s' hJ resumes⟩
          · have hbefore : pre.tasks id = some task := by
              simpa [TaskPool.advance, hsame] using hbusy
            exact (ih id task hbefore).concat (by simp)

end TaskSystem

end SilverNetwork
