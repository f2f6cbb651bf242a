import SilverNetwork.Verification.ErrorHandling.Recovery

/-! The error pipeline against its recovery manager alone. The handler looks at the strategy a
second time, and where it does not ask the manager, that would have answered the same and done
nothing. -/

namespace SilverNetwork

namespace ErrorHandling

open ErrorLogging ErrorRecovery

variable {κ : Type} {h h' : ComprehensiveErrorHandler κ} {error : NetworkError}
  {context : ErrorContext} {clocks : HandlerClocks} {m : ErrorRecoveryManager}

/-- Whatever it is told of, the custom handler comes back. -/
structure ErrorHandler.Returns (handler : ErrorHandler κ) : Prop where
  error : ∀ error context state, (handler.handleError error context state).isSome
  critical : ∀ error context state, (handler.handleCriticalError error context state).isSome
  recoverable : ∀ error context state,
    (handler.handleRecoverableError error context state).isSome

def CustomReturns (customHandler : Option (ErrorHandler κ)) : Prop :=
  ∀ handler, customHandler = some handler → handler.Returns

/-- What a call leaves to the next one, if the manager is `m` after it. -/
structure Leaves (h : ComprehensiveErrorHandler κ) (m : ErrorRecoveryManager)
    (h' : ComprehensiveErrorHandler κ) : Prop where
  manager : h'.recoveryManager = m
  custom : h'.customHandler = h.customHandler

theorem callCustomHandler_returns (hcustom : CustomReturns h.customHandler)
    (error : NetworkError) (context : ErrorContext) :
    ∃ h', h.callCustomHandler error context = some h' ∧ Leaves h h.recoveryManager h' := by
  unfold ComprehensiveErrorHandler.callCustomHandler
  cases hhandler : h.customHandler with
  | none => exact ⟨h, rfl, rfl, rfl⟩
  | some handler =>
      have hreturns := hcustom handler hhandler
      have hsome : ((if error.isCritical then handler.handleCriticalError
          else if error.isRecoverable then handler.handleRecoverableError
          else handler.handleError) error context h.customState).isSome := by
        split
        · exact hreturns.critical _ _ _
        · split
          · exact hreturns.recoverable _ _ _
          · exact hreturns.error _ _ _
      obtain ⟨state, hstate⟩ := Option.isSome_iff_exists.mp hsome
      exact ⟨{ h with customState := state }, by simp only [hstate, Option.map_some, hhandler],
        rfl, rfl⟩

/-- The manager has no errors to answer. -/
theorem manager_answers {peer : String} {clocks : Clocks} {m' : ErrorRecoveryManager}
    {answer : Except NetworkError RecoveryAction}
    (hanswer : m.handleError peer error clocks = some (answer, m')) :
    ∃ action, answer = .ok action := by
  have hstep : recoveryStep m (.handleError peer error clocks) = some (.answer answer, m') := by
    rw [recoveryStep, hanswer]
    rfl
  cases recoveryStep_rule hstep with
  | backoff | throttle | disconnect | standing => exact ⟨_, rfl⟩

theorem recover_of_manager {peer : String} {action : RecoveryAction}
    (hmanager : h.recoveryManager.handleError peer error clocks.recovery = some (.ok action, m)) :
    ∃ h', h.recover peer error clocks.recovery = some (action, h') ∧ Leaves h m h' :=
  ⟨{ h with recoveryManager := m }, by simp only [ComprehensiveErrorHandler.recover, hmanager,
    Option.map_some], rfl, rfl⟩

/-- The handler comes to the action that its manager does, by whichever way. -/
theorem dispatch_of_manager {action : RecoveryAction}
    (hmanager : h.recoveryManager.handleError (context.peerId.getD "unknown") error
      clocks.recovery = some (.ok action, m)) :
    ∃ h', h.dispatch error context clocks = some (action, h') ∧ Leaves h m h' := by
  unfold ComprehensiveErrorHandler.dispatch
  cases hstrategy : error.recoveryStrategy with
  | exponentialBackoff | throttle | reconnect | retry | waitAndRetry =>
      exact recover_of_manager hmanager
  | failStartup | log =>
      simp only [ErrorRecoveryManager.handleError, hstrategy] at hmanager
      obtain ⟨hsame, rfl⟩ := Prod.mk.inj (Option.some.inj hmanager)
      obtain rfl := Except.ok.inj hsame
      exact ⟨h, rfl, rfl, rfl⟩
  | alert =>
      have hcall := hmanager
      simp only [ErrorRecoveryManager.handleError, hstrategy] at hmanager
      obtain ⟨hsame, rfl⟩ := Prod.mk.inj (Option.some.inj hmanager)
      obtain rfl := Except.ok.inj hsame
      simp only [ComprehensiveErrorHandler.handleCriticalError]
      split
      · simp only [ComprehensiveErrorHandler.sendOperatorAlert, hcall, Option.map_some]
        exact ⟨_, rfl, rfl, rfl⟩
      · exact ⟨h, rfl, rfl, rfl⟩

variable {maxErrors : UInt32} {past : List RecoveryCall}

/-- One call of the handler, beside that of the manager that it has. -/
theorem handleError_of_manager (hreached : recoveryMachine.Run (.new maxErrors) past m)
    (hmanager : h.recoveryManager = m) (hcustom : CustomReturns h.customHandler)
    (error : NetworkError) (context : ErrorContext) (clocks : HandlerClocks) :
    ∃ action m' h', m.handleError (context.peerId.getD "unknown") error clocks.recovery =
        some (.ok action, m') ∧
      h.handleError error context clocks = some (.ok action, h') ∧ Leaves h m' h' := by
  obtain ⟨result, m', hstep⟩ := (run_remembers hreached).completes
    (.handleError (context.peerId.getD "unknown") error clocks.recovery)
  obtain ⟨⟨answer, m₁⟩, hanswer, _⟩ := Option.map_eq_some_iff.mp hstep
  obtain ⟨action, rfl⟩ := manager_answers hanswer
  obtain ⟨h₁, hcalled, hafter⟩ := callCustomHandler_returns hcustom error context
  have hinner : h₁.recoveryManager.handleError (context.peerId.getD "unknown") error
      clocks.recovery = some (.ok action, m₁) := by
    rw [hafter.manager, hmanager, hanswer]
  obtain ⟨h₂, hdispatch, hleaves⟩ := dispatch_of_manager hinner
  have hcall : h.handleError error context clocks = some (.ok action,
      { h₂ with
        logger := h₂.logger.logError error context error.isRecoverable
          (some (actionDebug action)) clocks.entry }) := by
    simp only [ComprehensiveErrorHandler.handleError, hcalled, hdispatch, Option.bind_eq_bind,
      Option.bind_some]
  exact ⟨action, m₁, _, hanswer, hcall, hleaves.manager, hleaves.custom.trans hafter.custom⟩

/-- Error after error, the handler answers what its manager would, and leaves it as it would be. -/
theorem run_of_manager (hreached : recoveryMachine.Run (.new maxErrors) past h.recoveryManager)
    (hcustom : CustomReturns h.customHandler) (events : List HandlerEvent) :
    ∃ calls t calls', (handlerMachine κ).Run h calls t ∧ calls.map Call.event = events ∧
      recoveryMachine.Run h.recoveryManager calls' t.recoveryManager ∧
      calls'.map Call.event = events.map HandlerEvent.recovery ∧
      calls'.map Call.result = calls.map (fun c => .answer c.result) ∧
      t.customHandler = h.customHandler := by
  induction events using List.reverseRecOn with
  | nil => exact ⟨[], h, [], .start, rfl, .start, rfl, rfl, rfl⟩
  | append_singleton events e ih =>
      obtain ⟨calls, t, calls', hrun, hevents, hrun', hevents', hresults, hsame⟩ := ih
      rw [← hsame] at hcustom
      obtain ⟨action, m', t', hmanager, hcall, hleaves⟩ :=
        handleError_of_manager (hreached.append hrun') rfl hcustom e.error e.context e.clocks
      have hstep' : recoveryMachine.step t.recoveryManager e.recovery =
          some (.answer (.ok action), m') := by
        simp only [recoveryMachine, recoveryStep, HandlerEvent.recovery, hmanager, Option.map_some]
        rfl
      have hmore := hrun'.of_step hstep'
      rw [← hleaves.manager] at hmore
      exact ⟨_, t', _, hrun.of_step (e := e) hcall, by simp [hevents], hmore, by simp [hevents'],
        by simp [hresults], hleaves.custom.trans hsame⟩

/-- From every state that a manager can be in, an error handled by the full pipeline leads to the
action and to the manager that the manager's own call leads to; and so does every sequence of
errors. -/
theorem pipeline_decides_as_manager
    (hreached : recoveryMachine.Run (.new maxErrors) past h.recoveryManager)
    (hcustom : CustomReturns h.customHandler) :
    (∀ error context clocks, ∃ action m h',
      h.recoveryManager.handleError (context.peerId.getD "unknown") error clocks.recovery =
        some (.ok action, m) ∧
      h.handleError error context clocks = some (.ok action, h') ∧ h'.recoveryManager = m) ∧
    ∀ events : List HandlerEvent, ∃ calls t calls',
      (handlerMachine κ).Run h calls t ∧ calls.map Call.event = events ∧
      recoveryMachine.Run h.recoveryManager calls' t.recoveryManager ∧
      calls'.map Call.event = events.map HandlerEvent.recovery ∧
      calls'.map Call.result = calls.map (fun c => .answer c.result) := by
  refine ⟨?_, ?_⟩
  · intro error context clocks
    obtain ⟨action, m, h', hmanager, hcall, hleaves⟩ :=
      handleError_of_manager hreached rfl hcustom error context clocks
    exact ⟨action, m, h', hmanager, hcall, hleaves.manager⟩
  · intro events
    obtain ⟨calls, t, calls', hrun, hevents, hrun', hevents', hresults, _⟩ :=
      run_of_manager hreached hcustom events
    exact ⟨calls, t, calls', hrun, hevents, hrun', hevents', hresults⟩

/-- A custom handler that counts what it is told of. -/
def countingHandler : ErrorHandler ℕ where
  handleError _ _ n := some (n + 1)
  handleCriticalError _ _ n := some (n + 1)
  handleRecoverableError _ _ n := some (n + 1)

/-- A critical error, a disconnection and a lost connection of one peer, with alerts. -/
theorem pipeline_decides_as_manager_plain :
    ∃ calls t calls', (handlerMachine ℕ).Run
        ((ComprehensiveErrorHandler.new (.new 1) (.new 5) true 0).withCustomHandler
          countingHandler) calls t ∧
      recoveryMachine.Run (.new 5) calls' t.recoveryManager ∧
      calls'.map Call.result = calls.map (fun c => .answer c.result) ∧
      calls'.map Call.event = [
        .handleError "p" (.criticalError "") ⟨0, 0⟩,
        .handleError "p" (.peerDisconnected "") ⟨0, 0⟩,
        .handleError "p" (.connectionTimeout "") ⟨0, 0⟩] := by
  have hcustom : CustomReturns (some countingHandler) := by
    rintro handler ⟨⟩
    exact ⟨fun _ _ _ => rfl, fun _ _ _ => rfl, fun _ _ _ => rfl⟩
  have hnew : recoveryMachine.Run (.new 5) [] (.new 5) := .start
  have hdecides := pipeline_decides_as_manager (κ := ℕ)
    (h := (ComprehensiveErrorHandler.new (.new 1) (.new 5) true 0).withCustomHandler
      countingHandler) hnew hcustom
  obtain ⟨calls, t, calls', hrun, hevents, hrun', hevents', hresults⟩ := hdecides.2 [
    ⟨.criticalError "", (ErrorContext.new "" 0).withPeer "p", ⟨⟨0, 0⟩, 0, 0⟩⟩,
    ⟨.peerDisconnected "", (ErrorContext.new "" 0).withPeer "p", ⟨⟨0, 0⟩, 0, 0⟩⟩,
    ⟨.connectionTimeout "", (ErrorContext.new "" 0).withPeer "p", ⟨⟨0, 0⟩, 0, 0⟩⟩]
  exact ⟨calls, t, calls', hrun, hrun', hresults, hevents'⟩

end ErrorHandling

end SilverNetwork
