import SilverNetwork.Verification.ErrorHandling.Counting
import SilverNetwork.Verification.ErrorRecovery.History

/-! The recovery manager inside an error handler. A run of the handler takes its manager through a
run of the manager's own, so that what holds in every run of a manager holds of the one inside. -/

namespace SilverNetwork

namespace ErrorHandling

open ErrorLogging ErrorRecovery

variable {κ : Type} {h h' : ComprehensiveErrorHandler κ} {r : Except NetworkError RecoveryAction}
  {e : HandlerEvent} {calls : List (HandlerCall κ)}

def HandlerEvent.recovery (e : HandlerEvent) : RecoveryEvent :=
  .handleError (e.context.peerId.getD "unknown") e.error e.clocks.recovery

/-- What a call asks of the manager, for which a critical error counts only as an alert. -/
def HandlerEvent.recoveries (alerts : Bool) (e : HandlerEvent) : List RecoveryEvent :=
  match e.error.recoveryStrategy with
  | .failStartup | .log => []
  | .alert => if alerts then [e.recovery] else []
  | _ => [e.recovery]

/-- The manager goes through a run of its own for the events. -/
def Recovers (events : List RecoveryEvent) (m m' : ErrorRecoveryManager) : Prop :=
  ∃ calls, recoveryMachine.Run m calls m' ∧ calls.map Call.event = events

theorem Recovers.none (m : ErrorRecoveryManager) : Recovers [] m m := ⟨[], .start, rfl⟩

theorem Recovers.one {event : RecoveryEvent} {m m' : ErrorRecoveryManager}
    {result : RecoveryResult} (hstep : recoveryStep m event = some (result, m')) :
    Recovers [event] m m' :=
  ⟨_, Machine.Run.start.of_step hstep, rfl⟩

theorem Recovers.append {events more : List RecoveryEvent} {m m' m'' : ErrorRecoveryManager}
    (hfirst : Recovers events m m') (hrest : Recovers more m' m'') :
    Recovers (events ++ more) m m'' := by
  obtain ⟨calls, hrun, rfl⟩ := hfirst
  obtain ⟨calls', hrun', rfl⟩ := hrest
  exact ⟨calls ++ calls', hrun.append hrun', by simp⟩

theorem callCustomHandler_recoveryManager {error : NetworkError} {context : ErrorContext}
    (hcall : h.callCustomHandler error context = some h') :
    h'.recoveryManager = h.recoveryManager := by
  unfold ComprehensiveErrorHandler.callCustomHandler at hcall
  split at hcall
  · obtain rfl := Option.some.inj hcall
    rfl
  · obtain ⟨state, _, rfl⟩ := Option.map_eq_some_iff.mp hcall
    rfl

theorem recover_recovers {action : RecoveryAction}
    (hrecover : h.recover (e.context.peerId.getD "unknown") e.error e.clocks.recovery =
      some (action, h')) : Recovers [e.recovery] h.recoveryManager h'.recoveryManager := by
  obtain ⟨⟨answer, m⟩, hanswer, hpair⟩ := Option.map_eq_some_iff.mp hrecover
  obtain ⟨_, rfl⟩ := Prod.mk.inj hpair
  apply Recovers.one
  exact congrArg (Option.map (Prod.map RecoveryResult.answer id)) hanswer

theorem dispatch_recovers {action : RecoveryAction}
    (hdispatch : h.dispatch e.error e.context e.clocks = some (action, h')) :
    Recovers (e.recoveries h.enableAlerts) h.recoveryManager h'.recoveryManager := by
  unfold ComprehensiveErrorHandler.dispatch at hdispatch
  unfold HandlerEvent.recoveries
  cases hstrategy : e.error.recoveryStrategy with
  | exponentialBackoff | throttle | reconnect | retry | waitAndRetry =>
      rw [hstrategy] at hdispatch
      exact recover_recovers hdispatch
  | failStartup | log =>
      rw [hstrategy] at hdispatch
      obtain ⟨_, rfl⟩ := Prod.mk.inj (Option.some.inj hdispatch)
      exact .none _
  | alert =>
      simp only [hstrategy, ComprehensiveErrorHandler.handleCriticalError] at hdispatch
      split at hdispatch
      · rename_i halerts
        obtain ⟨h₁, halert, hpair⟩ := Option.map_eq_some_iff.mp hdispatch
        obtain ⟨_, rfl⟩ := Prod.mk.inj hpair
        obtain ⟨⟨answer, m⟩, hanswer, rfl⟩ := Option.map_eq_some_iff.mp halert
        rw [if_pos halerts]
        apply Recovers.one
        exact congrArg (Option.map (Prod.map RecoveryResult.answer id)) hanswer
      · rename_i halerts
        obtain ⟨_, rfl⟩ := Prod.mk.inj (Option.some.inj hdispatch)
        rw [if_neg halerts]
        exact .none _

theorem handleError_recovers
    (hcall : h.handleError e.error e.context e.clocks = some (r, h')) :
    Recovers (e.recoveries h.enableAlerts) h.recoveryManager h'.recoveryManager := by
  simp only [ComprehensiveErrorHandler.handleError, Option.bind_eq_bind, Option.bind_eq_some_iff,
    Option.some.injEq, Prod.mk.injEq, Prod.exists] at hcall
  obtain ⟨h₁, hcustom, action, h₂, hdispatch, rfl, rfl⟩ := hcall
  have hrecovers := dispatch_recovers hdispatch
  rw [callCustomHandler_recoveryManager hcustom, (callCustomHandler_untouched hcustom).alerts]
    at hrecovers
  exact hrecovers

/-- A run of the handler is a run of its manager. -/
theorem run_recovers {start t : ComprehensiveErrorHandler κ}
    (hrun : (handlerMachine κ).Run start calls t) :
    t.enableAlerts = start.enableAlerts ∧
      Recovers (calls.flatMap fun c => c.event.recoveries start.enableAlerts)
        start.recoveryManager t.recoveryManager := by
  induction hrun with
  | start => exact ⟨rfl, .none _⟩
  | call c _ hmakes ih =>
      obtain ⟨halerts, hrecovers⟩ := ih
      have hstep := handleError_recovers hmakes
      obtain ⟨hsame, _⟩ := handleError_logger hmakes
      rw [halerts] at hstep
      rw [List.flatMap_append, List.flatMap_singleton]
      exact ⟨hsame.trans halerts, hrecovers.append hstep⟩

/-! ## No call is lost -/

/-- A manager that remembers its calls answers what the handler asks of it. -/
theorem dispatch_returns {maxErrors : UInt32} {past : List RecoveryCall}
    (hremembers : Remembers maxErrors past h.recoveryManager) (e : HandlerEvent) :
    ∃ action h', h.dispatch e.error e.context e.clocks = some (action, h') := by
  obtain ⟨result, m, hstep⟩ := hremembers.completes e.recovery
  obtain ⟨⟨answer, m'⟩, hanswer, _⟩ := Option.map_eq_some_iff.mp hstep
  unfold ComprehensiveErrorHandler.dispatch
  cases e.error.recoveryStrategy with
  | exponentialBackoff | throttle | reconnect | retry | waitAndRetry =>
      exact ⟨_, _, congrArg (Option.map _) hanswer⟩
  | failStartup | log => exact ⟨_, _, rfl⟩
  | alert =>
      simp only [ComprehensiveErrorHandler.handleCriticalError,
        ComprehensiveErrorHandler.sendOperatorAlert, hanswer]
      split
      · exact ⟨_, _, rfl⟩
      · exact ⟨_, _, rfl⟩

/-- After any run from a new manager a further call returns, if its custom handler does. -/
theorem handleError_returns {maxErrors : UInt32} {start t t₁ : ComprehensiveErrorHandler κ}
    (hrun : (handlerMachine κ).Run start calls t)
    (hnew : start.recoveryManager = .new maxErrors) (e : HandlerEvent)
    (hcustom : t.callCustomHandler e.error e.context = some t₁) :
    ∃ r t', t.handleError e.error e.context e.clocks = some (r, t') := by
  obtain ⟨_, past, hinner, _⟩ := run_recovers hrun
  rw [hnew] at hinner
  have hremembers := run_remembers hinner
  rw [← callCustomHandler_recoveryManager hcustom] at hremembers
  obtain ⟨action, t₂, hdispatch⟩ := dispatch_returns hremembers e
  simp [ComprehensiveErrorHandler.handleError, hcustom, hdispatch]

end ErrorHandling

end SilverNetwork
