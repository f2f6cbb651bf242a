import SilverNetwork.Foundations.LockOrder
import SilverNetwork.Model.ConcurrentRecovery

/-! The recovery manager under concurrent callers does not deadlock: whoever holds the lock of the
counts may ask for that of the backoffs, and nobody asks the other way round. -/

namespace SilverNetwork

namespace ErrorRecovery

open LockedObject LockProgram

variable {Caller : Type} [DecidableEq Caller]

/-- The order in which the locks are taken. -/
def RecoveryLock.rank : RecoveryLock → ℕ
  | .errorCounts => 0
  | .rateLimiters => 0
  | .backoffStates => 1

abbrev guardRank (g : Guard RecoveryLock) : ℕ := g.lock.rank

/-- One guard around one step. -/
theorem ascends_section {α β : Type} (g : Guard RecoveryLock) {f : α → β}
    {update : ErrorRecoveryManager → Option ErrorRecoveryManager}
    {result : ErrorRecoveryManager → α} :
    (f <$> guarded g (.step update fun m => .done (result m))).Along (ascends guardRank)
      (fun _ _ => True) [] :=
  ⟨by simp, fun _ => trivial⟩

theorem ascends_program (op : RecoveryOp) :
    op.program.Along (ascends guardRank) (fun _ _ => True) [] := by
  cases op with
  | event e =>
      cases e with
      | handleError peer error clocks =>
          simp only [RecoveryOp.program, RecoveryProgram.handleError]
          cases error.recoveryStrategy with
          | exponentialBackoff | throttle | reconnect => exact ascends_section _
          | retry | waitAndRetry | alert | failStartup | log => trivial
      | resetErrorCount peer =>
          refine ⟨by simp, fun _ => ?_⟩
          refine ⟨?_, fun _ => trivial⟩
          -- the counts rank below the backoffs
          intro g hg
          obtain rfl := List.mem_singleton.mp hg
          exact Nat.zero_lt_one
  | getErrorCount peer => exact ascends_section _
  | shouldBanPeer peer => exact ⟨by simp, fun _ _ => trivial⟩

theorem within_program (op : RecoveryOp) : op.program.Within 7 := by
  cases op with
  | event e =>
      cases e with
      | handleError peer error clocks =>
          simp only [RecoveryOp.program, RecoveryProgram.handleError]
          cases error.recoveryStrategy with
          | exponentialBackoff | throttle | reconnect => exact fun _ => trivial
          | retry | waitAndRetry | alert | failStartup | log => trivial
      | resetErrorCount peer => exact fun _ _ => trivial
  | getErrorCount peer => exact fun _ => trivial
  | shouldBanPeer peer => exact fun _ _ => trivial

theorem orderly_lockedRecovery : lockedRecovery.Orderly guardRank 1 7 where
  ranked := by
    intro g
    cases g with
    | read lock | write lock => cases lock <;> decide
  excludes := fun _ _ h => le_of_eq (congrArg RecoveryLock.rank (Guard.lock_eq_of_excludes h)).symm
  ascends := ascends_program
  within := within_program

/-- Whatever calls of the recovery manager are under way, one of them can go on until all have
returned, and none takes more than seven steps more. -/
theorem recovery_calls_return {maxErrors : UInt32}
    {calls : List (LockedObject.Step (Guard RecoveryLock) ErrorRecoveryManager Empty Caller
      RecoveryOp RecoveryAnswer)}
    {x : Contended (Guard RecoveryLock) ErrorRecoveryManager Caller RecoveryAnswer}
    (hrun : (lockedRecovery.machine Caller).Run (.start (.new maxErrors)) calls x) :
    (∀ caller, x.threads caller ≠ none → ∃ caller', x.step lockedRecovery (.act caller') ≠ none) ∧
    ∀ more y, (lockedRecovery.machine Caller).Run x more y → ∀ caller,
      (∀ c ∈ more, ∀ op, c.event ≠ .call caller op) → more.countP (acts caller) ≤ 7 :=
  orderly_lockedRecovery.completes hrun

/-- A reset that holds the counts waits for the backoffs, and its peer's lost connection goes on. -/
theorem recovery_calls_return_waiting :
    ∃ calls x, (lockedRecovery.machine ℕ).Run (.start (.new 3)) calls x ∧
      x.step lockedRecovery (.act 1) = none ∧
      ∃ caller', x.step lockedRecovery (.act caller') ≠ none := by
  have hreset := Machine.Run.start.of_step (M := lockedRecovery.machine ℕ) (s := .start (.new 3))
    (e := .call 1 (.event (.resetErrorCount "p"))) rfl
    |>.of_step (e := .act 1) rfl |>.of_step (e := .act 1) rfl
  have hrun := hreset.of_step
    (e := .call 2 (.event (.handleError "p" (.connectionTimeout "p") ⟨0, 0⟩))) rfl
    |>.of_step (e := .act 2) rfl
  exact ⟨_, _, hrun, rfl, (recovery_calls_return hrun).1 1 (Option.some_ne_none _)⟩

end ErrorRecovery

end SilverNetwork
