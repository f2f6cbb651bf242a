import Mathlib.Algebra.BigOperators.Group.Finset.Basic
import SilverNetwork.Foundations.TaskPool

/-! What tasks owe and what they pay. A step may leave something due that a later step of the same
task pays. Over a run, what has been paid and what is still due come to what has been owed. -/

namespace SilverNetwork

/-- The task that takes the step. -/
def TaskEvent.task {ε κ Op : Type} : TaskEvent ε κ Op → κ
  | .start id _ _ => id
  | .resume id _ => id

namespace TaskSystem

variable {σ ε κ Op π ρ M : Type} [DecidableEq κ] [AddCommMonoid M] {T : TaskSystem σ ε Op π ρ}
  {s : σ} {x y : TaskPool σ κ π} {e : TaskEvent ε κ Op} {r : Progress ρ} {id : κ}

omit [AddCommMonoid M] in
theorem Rule.tasks_of_ne (h : Rule T x e r y) (hid : id ≠ e.task) : y.tasks id = x.tasks id := by
  cases h with
  | start | resume => exact Function.update_of_ne hid _ _

/-- What a task leaves due, while it is under way. -/
def dueOf (due : π → M) (task : Option π) : M := (task.map due).getD 0

/-- The step pays what is due and not left so, and what it owes. -/
def Balances (due : π → M) (paid owed : Call (TaskPool σ κ π) (TaskEvent ε κ Op) (Progress ρ) → M)
    (c : Call (TaskPool σ κ π) (TaskEvent ε κ Op) (Progress ρ)) : Prop :=
  paid c + dueOf due (c.post.tasks c.event.task) = owed c + dueOf due (c.pre.tasks c.event.task)

/-- The tasks that leave something due are among the given ones. -/
theorem run_balance {calls : List (Call (TaskPool σ κ π) (TaskEvent ε κ Op) (Progress ρ))}
    {due : π → M} {paid owed : Call (TaskPool σ κ π) (TaskEvent ε κ Op) (Progress ρ) → M}
    (hrun : (T.machine κ).Run (.idle s) calls x)
    (hsteps : ∀ c ∈ calls, (T.machine κ).Makes c → Balances due paid owed c)
    (ids : Finset κ) (hids : ∀ id ∉ ids, dueOf due (x.tasks id) = 0) :
    (calls.map paid).sum + ∑ id ∈ ids, dueOf due (x.tasks id) = (calls.map owed).sum := by
  induction hrun generalizing ids with
  | start => simp [dueOf, TaskPool.idle]
  | @call calls c hrun hmakes ih =>
      have hothers : ∀ id, id ≠ c.event.task → c.post.tasks id = c.pre.tasks id :=
        fun id hid => (rule_of_step hmakes).tasks_of_ne hid
      have hstep : Balances due paid owed c := hsteps c List.mem_concat_self hmakes
      -- before the step its own task may have left something due
      have hpast := ih (fun d hd => hsteps d (List.mem_append_left _ hd)) (insert c.event.task ids)
        (by
          intro id hid
          obtain ⟨hne, hmem⟩ := not_or.mp (mt Finset.mem_insert.mpr hid)
          rw [← hothers id hne]
          exact hids id hmem)
      have hnow : ∑ id ∈ ids, dueOf due (c.post.tasks id) =
          ∑ id ∈ insert c.event.task ids, dueOf due (c.post.tasks id) :=
        (Finset.sum_insert_of_eq_zero_if_notMem (hids c.event.task)).symm
      have hrest : ∑ id ∈ (insert c.event.task ids).erase c.event.task,
            dueOf due (c.post.tasks id) =
          ∑ id ∈ (insert c.event.task ids).erase c.event.task, dueOf due (c.pre.tasks id) := by
        refine Finset.sum_congr rfl fun id hid => ?_
        rw [hothers id (Finset.ne_of_mem_erase hid)]
      have hmem : c.event.task ∈ insert c.event.task ids := Finset.mem_insert_self _ _
      rw [hnow, ← Finset.add_sum_erase _ _ hmem, hrest]
      rw [← Finset.add_sum_erase _ _ hmem] at hpast
      rw [List.map_append, List.map_append, List.sum_append, List.sum_append, ← hpast]
      generalize ∑ id ∈ (insert c.event.task ids).erase c.event.task,
        dueOf due (c.pre.tasks id) = others
      simp only [List.map_cons, List.map_nil, List.sum_singleton]
      calc (calls.map paid).sum + paid c + (dueOf due (c.post.tasks c.event.task) + others)
          = (calls.map paid).sum + (paid c + dueOf due (c.post.tasks c.event.task)) + others := by
            ac_rfl
        _ = (calls.map paid).sum + (owed c + dueOf due (c.pre.tasks c.event.task)) + others := by
            rw [hstep]
        _ = (calls.map paid).sum + (dueOf due (c.pre.tasks c.event.task) + others) + owed c := by
            ac_rfl

end TaskSystem

end SilverNetwork
