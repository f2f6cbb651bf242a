import SilverNetwork.Model.ErrorHandling

/-! What the logger has counted. The counters and the history of a fresh logger are those of the
entries appended to it, and each call appends one entry for itself; an alert appends another. -/

namespace SilverNetwork

namespace ErrorLogging

variable {entries : List ErrorLogEntry} {entry : ErrorLogEntry} {l : ErrorLogger} {size : ℕ}

/-- Logging an error, once its entry is made. -/
def ErrorLogger.append (l : ErrorLogger) (entry : ErrorLogEntry) : ErrorLogger :=
  { l with
    metrics :=
      if entry.recovered then (l.metrics.recordError entry.category).recordRecovered
      else l.metrics.recordError entry.category
    history := BoundedHistory.push l.maxHistorySize l.history entry }

/-- The counters are those of the entries, as far as 64 bits hold them. -/
structure ErrorMetrics.Tallies (entries : List ErrorLogEntry) (m : ErrorMetrics) : Prop where
  total : m.totalErrors = UInt64.ofNat entries.length
  categories : ∀ category n, m.counter category = some n →
    n = UInt64.ofNat (entries.countP fun entry => entry.category = category)
  recovered : m.recoveredErrors = UInt64.ofNat (entries.countP fun entry => entry.recovered)

theorem ErrorMetrics.tallies_zero : zero.Tallies [] where
  total := rfl
  categories := fun category n hn => by
    cases category <;> simp_all [counter, zero]
  recovered := rfl

/-- The counter of a category moves with that category only. -/
theorem ErrorMetrics.counter_recordError (m : ErrorMetrics) (category category' : ErrorCategory) :
    (m.recordError category).counter category' =
      (m.counter category').map fun n => if category = category' then n + 1 else n := by
  cases category <;> cases category' <;> rfl

theorem ErrorMetrics.totalErrors_recordError (m : ErrorMetrics) (category : ErrorCategory) :
    (m.recordError category).totalErrors = m.totalErrors + 1 := by
  cases category <;> rfl

theorem ErrorMetrics.recoveredErrors_recordError (m : ErrorMetrics) (category : ErrorCategory) :
    (m.recordError category).recoveredErrors = m.recoveredErrors := by
  cases category <;> rfl

@[simp] theorem ErrorMetrics.counter_recordRecovered (m : ErrorMetrics)
    (category : ErrorCategory) : m.recordRecovered.counter category = m.counter category := by
  cases category <;> rfl

@[simp] theorem ErrorMetrics.totalErrors_recordRecovered (m : ErrorMetrics) :
    m.recordRecovered.totalErrors = m.totalErrors := rfl

theorem ErrorMetrics.Tallies.append {m : ErrorMetrics} (h : m.Tallies entries)
    (entry : ErrorLogEntry) :
    (if entry.recovered then (m.recordError entry.category).recordRecovered
      else m.recordError entry.category).Tallies (entries ++ [entry]) := by
  constructor
  case total =>
    rw [List.length_append, List.length_singleton, UInt64.ofNat_add, ← h.total]
    split <;> simp [totalErrors_recordError]
  case categories =>
    intro category n' hcounter
    have hcounter : (m.recordError entry.category).counter category = some n' := by
      split at hcounter
      · rwa [counter_recordRecovered] at hcounter
      · exact hcounter
    rw [counter_recordError, Option.map_eq_some_iff] at hcounter
    obtain ⟨n, hn, rfl⟩ := hcounter
    rw [h.categories category n hn, List.countP_append, List.countP_singleton]
    by_cases hcategory : entry.category = category
    · simp [hcategory]
    · simp [hcategory]
  case recovered =>
    rw [List.countP_append, List.countP_singleton]
    cases hrecovered : entry.recovered with
    | true => simp [recordRecovered, recoveredErrors_recordError, h.recovered]
    | false => simp [recoveredErrors_recordError, h.recovered]

/-- The logger holds what a fresh one of its size does once the entries are appended to it. -/
structure ErrorLogger.Holds (size : ℕ) (entries : List ErrorLogEntry) (l : ErrorLogger) :
    Prop where
  size_eq : l.maxHistorySize = size
  metrics : l.metrics.Tallies entries
  history : l.history = entries.rtake size

theorem ErrorLogger.holds_new (size : ℕ) : (new size).Holds size [] where
  size_eq := rfl
  metrics := ErrorMetrics.tallies_zero
  history := by simp [new, List.rtake]

theorem ErrorLogger.Holds.append (h : l.Holds size entries) (hsize : 1 ≤ size)
    (entry : ErrorLogEntry) : (l.append entry).Holds size (entries ++ [entry]) where
  size_eq := h.size_eq
  metrics := h.metrics.append entry
  history := by
    rw [ErrorLogger.append, h.size_eq, h.history]
    exact BoundedHistory.push_rtake hsize entries entry

theorem ErrorLogger.Holds.foldl (h : l.Holds size entries) (hsize : 1 ≤ size)
    (more : List ErrorLogEntry) : (more.foldl ErrorLogger.append l).Holds size (entries ++ more) := by
  induction more generalizing l entries with
  | nil => simpa using h
  | cons entry more ih =>
      rw [List.append_cons]
      exact ih (h.append hsize entry)

end ErrorLogging

namespace ErrorHandling

open ErrorLogging ErrorRecovery

variable {κ : Type} {h h' : ComprehensiveErrorHandler κ} {r : Except NetworkError RecoveryAction}
  {e : HandlerEvent} {calls : List (HandlerCall κ)} {size : ℕ}

/-! ## What a call appends -/

/-- The entry that a call appends for itself, with the action that it returns. -/
def ownEntry (e : HandlerEvent) (r : Except NetworkError RecoveryAction) : ErrorLogEntry where
  error := e.error.display
  context := e.context
  category := ErrorCategory.fromError e.error
  timestamp := e.clocks.entry
  recovered := e.error.isRecoverable
  recoveryAction := r.toOption.map actionDebug

/-- The entry that an alert appends. -/
def alertEntry (e : HandlerEvent) : ErrorLogEntry where
  error := e.error.display
  context := e.context
  category := ErrorCategory.fromError e.error
  timestamp := e.clocks.alert
  recovered := true
  recoveryAction := some "Alert"

/-- The error is one that an alert is sent for. -/
def Alerting (e : HandlerEvent) : Prop := e.error.recoveryStrategy = .alert

instance (e : HandlerEvent) : Decidable (Alerting e) := inferInstanceAs (Decidable (_ = _))

def appended (alerts : Bool) (e : HandlerEvent) (r : Except NetworkError RecoveryAction) :
    List ErrorLogEntry :=
  if alerts ∧ Alerting e then [alertEntry e, ownEntry e r] else [ownEntry e r]

/-- What a custom handler and a recovery leave alone. -/
structure Untouched (h h' : ComprehensiveErrorHandler κ) : Prop where
  logger : h'.logger = h.logger
  alerts : h'.enableAlerts = h.enableAlerts

theorem callCustomHandler_untouched {error : NetworkError} {context : ErrorContext}
    (hcall : h.callCustomHandler error context = some h') : Untouched h h' := by
  unfold ComprehensiveErrorHandler.callCustomHandler at hcall
  split at hcall
  · obtain rfl := Option.some.inj hcall
    exact ⟨rfl, rfl⟩
  · obtain ⟨state, _, rfl⟩ := Option.map_eq_some_iff.mp hcall
    exact ⟨rfl, rfl⟩

theorem recover_untouched {peer : String} {error : NetworkError} {clocks : Clocks}
    {action : RecoveryAction} (hrecover : h.recover peer error clocks = some (action, h')) :
    Untouched h h' := by
  obtain ⟨_, _, hpair⟩ := Option.map_eq_some_iff.mp hrecover
  obtain ⟨_, rfl⟩ := Prod.mk.inj hpair
  exact ⟨rfl, rfl⟩

/-- Only an alert logs anything before the call does. -/
theorem dispatch_logger {action : RecoveryAction}
    (hdispatch : h.dispatch e.error e.context e.clocks = some (action, h')) :
    h'.enableAlerts = h.enableAlerts ∧
      h'.logger = if h.enableAlerts ∧ Alerting e then h.logger.append (alertEntry e)
        else h.logger := by
  unfold ComprehensiveErrorHandler.dispatch at hdispatch
  cases hstrategy : e.error.recoveryStrategy with
  | exponentialBackoff | throttle | reconnect | retry | waitAndRetry =>
      rw [hstrategy] at hdispatch
      have huntouched := recover_untouched hdispatch
      simpa [Alerting, hstrategy] using And.intro huntouched.alerts huntouched.logger
  | failStartup | log =>
      rw [hstrategy] at hdispatch
      obtain ⟨_, rfl⟩ := Prod.mk.inj (Option.some.inj hdispatch)
      simp [Alerting, hstrategy]
  | alert =>
      simp only [hstrategy, ComprehensiveErrorHandler.handleCriticalError,
        ComprehensiveErrorHandler.sendOperatorAlert, ErrorRecoveryManager.handleError,
        ErrorRecoveryManager.handleAlert] at hdispatch
      split at hdispatch
      · rename_i halerts
        obtain ⟨_, rfl⟩ := Prod.mk.inj (Option.some.inj hdispatch)
        simp only [halerts, Alerting, hstrategy, and_self, if_true, true_and]
        rfl
      · rename_i halerts
        obtain ⟨_, rfl⟩ := Prod.mk.inj (Option.some.inj hdispatch)
        simp [halerts]

theorem handleError_logger (hcall : h.handleError e.error e.context e.clocks = some (r, h')) :
    h'.enableAlerts = h.enableAlerts ∧
      h'.logger = (appended h.enableAlerts e r).foldl ErrorLogger.append h.logger := by
  simp only [ComprehensiveErrorHandler.handleError, Option.bind_eq_bind, Option.bind_eq_some_iff,
    Option.some.injEq, Prod.mk.injEq, Prod.exists] at hcall
  obtain ⟨h₁, hcustom, action, h₂, hdispatch, rfl, rfl⟩ := hcall
  have huntouched := callCustomHandler_untouched hcustom
  obtain ⟨halerts, hlogger⟩ := dispatch_logger hdispatch
  rw [huntouched.alerts] at halerts hlogger
  rw [huntouched.logger] at hlogger
  refine ⟨halerts, ?_⟩
  change ErrorLogger.append h₂.logger (ownEntry e (.ok action)) = _
  rw [hlogger, appended]
  split <;> rfl

/-! ## Counting -/

theorem alerting_iff : Alerting e ↔ ∃ message, e.error = .criticalError message := by
  unfold Alerting
  cases e.error <;> simp [NetworkError.recoveryStrategy]

/-- Every call is counted once, under its category and as recovered if it can be, and has one
entry appended, of which the history keeps the latest. -/
structure Counted (size : ℕ) (calls : List (HandlerCall κ)) (l : ErrorLogger) : Prop where
  total : l.metrics.totalErrors.toNat = calls.length
  categories : ∀ category n, l.metrics.counter category = some n →
    n.toNat = calls.countP fun c => ErrorCategory.fromError c.event.error = category
  recovered : l.metrics.recoveredErrors.toNat = calls.countP fun c => c.event.error.isRecoverable
  history : l.history = (calls.map fun c => ownEntry c.event c.result).rtake size

theorem run_holds {start t : ComprehensiveErrorHandler κ}
    (hrun : (handlerMachine κ).Run start calls t) (hfresh : start.logger = .new size)
    (hsize : 1 ≤ size) :
    t.enableAlerts = start.enableAlerts ∧
      t.logger.Holds size (calls.flatMap fun c => appended start.enableAlerts c.event c.result) := by
  induction hrun with
  | start =>
      rw [hfresh]
      exact ⟨rfl, ErrorLogger.holds_new size⟩
  | call c _ hmakes ih =>
      obtain ⟨halerts, hholds⟩ := ih
      obtain ⟨hsame, hlogger⟩ := handleError_logger hmakes
      rw [hlogger, hsame, List.flatMap_append, List.flatMap_singleton, halerts]
      exact ⟨rfl, hholds.foldl hsize _⟩

/-- No alert is sent for any of the calls. -/
def Unalerted (alerts : Bool) (calls : List (HandlerCall κ)) : Prop :=
  alerts = false ∨ ∀ c ∈ calls, ∀ message, c.event.error ≠ .criticalError message

theorem Unalerted.flatMap_appended {alerts : Bool} (h : Unalerted alerts calls) :
    (calls.flatMap fun c => appended alerts c.event c.result) =
      calls.map fun c => ownEntry c.event c.result := by
  rw [List.map_eq_flatMap]
  apply List.flatMap_congr
  intro c hc
  apply if_neg
  intro hboth
  obtain ⟨message, hcritical⟩ := alerting_iff.mp hboth.2
  rcases h with halerts | hnone
  · simp [halerts] at hboth
  · exact hnone c hc message hcritical

/-- Each alert is one entry more than there are calls. -/
theorem length_flatMap_appended (calls : List (HandlerCall κ)) :
    (calls.flatMap fun c => appended true c.event c.result).length =
      calls.length + calls.countP fun c => Alerting c.event := by
  induction calls with
  | nil => rfl
  | cons c calls ih =>
      rw [List.flatMap_cons, List.length_append, ih, List.length_cons, List.countP_cons]
      by_cases halerting : Alerting c.event
      · simp only [appended, halerting, and_self, if_true, List.length_cons, List.length_nil,
          decide_true]
        omega
      · simp only [appended, halerting, and_false, if_false, List.length_cons, List.length_nil,
          decide_false, Bool.false_eq_true]
        omega

theorem Counted.of_holds {l : ErrorLogger}
    (h : l.Holds size (calls.map fun c => ownEntry c.event c.result))
    (hfew : calls.length < 2 ^ 64) : Counted size calls l where
  total := by
    rw [h.metrics.total, List.length_map, UInt64.toNat_ofNat_of_lt' hfew]
  categories := fun category n hn => by
    have hcount := List.countP_le_length (l := calls)
      (p := fun c => decide (ErrorCategory.fromError c.event.error = category))
    rw [h.metrics.categories category n hn, List.countP_map]
    exact UInt64.toNat_ofNat_of_lt' (Nat.lt_of_le_of_lt hcount hfew)
  recovered := by
    have hcount := List.countP_le_length (l := calls) (p := fun c => c.event.error.isRecoverable)
    rw [h.metrics.recovered, List.countP_map]
    exact UInt64.toNat_ofNat_of_lt' (Nat.lt_of_le_of_lt hcount hfew)
  history := h.history

/-- The errors of a run are counted once each exactly when no alert is sent for any of them. -/
theorem errors_counted_once_iff {start t : ComprehensiveErrorHandler κ}
    (hrun : (handlerMachine κ).Run start calls t) (hfresh : start.logger = .new size)
    (hsize : 1 ≤ size) (hfew : calls.length < 2 ^ 64) :
    Counted size calls t.logger ↔ Unalerted start.enableAlerts calls := by
  obtain ⟨_, hholds⟩ := run_holds hrun hfresh hsize
  constructor
  · intro hcounted
    cases halerts : start.enableAlerts with
    | false => exact .inl rfl
    | true =>
        have htotal := hcounted.total
        have hlength := length_flatMap_appended calls
        have hfewer := List.countP_le_length (l := calls) (p := fun c => decide (Alerting c.event))
        rw [halerts] at hholds
        rw [hholds.metrics.total, UInt64.toNat_ofNat', hlength] at htotal
        have hnone : calls.countP (fun c => decide (Alerting c.event)) = 0 := by omega
        refine .inr ?_
        intro c hc message hcritical
        have hquiet := List.countP_eq_zero.mp hnone c hc
        simp [alerting_iff, hcritical] at hquiet
  · intro hunalerted
    rw [hunalerted.flatMap_appended] at hholds
    exact .of_holds hholds hfew

/-- Without alerts, a critical error and a timeout are counted once each. -/
theorem errors_counted_once_iff_plain :
    ∃ calls t, (handlerMachine Unit).Run (.new (.new 1) (.new 5) false ()) calls t ∧
      calls.map (fun c => c.event.error) = [.criticalError "", .connectionTimeout ""] ∧
      Counted 1 calls t.logger := by
  have hrun := ((Machine.Run.start (M := handlerMachine Unit)
    (s := .new (.new 1) (.new 5) false ())).of_step
      (e := ⟨.criticalError "", .new "" 0, ⟨0, 0⟩, 0, 0⟩) rfl).of_step
        (e := ⟨.connectionTimeout "", .new "" 0, ⟨0, 0⟩, 0, 0⟩) rfl
  have hiff := errors_counted_once_iff hrun rfl (Nat.le_refl 1) (by decide)
  exact ⟨_, _, hrun, rfl, hiff.mpr (.inl rfl)⟩

/-- With alerts, one critical error is counted twice, once of these as recovered. -/
theorem alert_counted_twice :
    ∃ calls t, (handlerMachine Unit).Run (.new (.new 1) (.new 5) true ()) calls t ∧
      calls.map (fun c => c.event.error) = [.criticalError ""] ∧
      t.logger.metrics.totalErrors = 2 ∧ t.logger.metrics.recoveredErrors = 1 ∧
      ¬ Counted 1 calls t.logger := by
  have hrun := (Machine.Run.start (M := handlerMachine Unit)
    (s := .new (.new 1) (.new 5) true ())).of_step
      (e := ⟨.criticalError "", .new "" 0, ⟨0, 0⟩, 0, 0⟩) rfl
  refine ⟨_, _, hrun, rfl, rfl, rfl, ?_⟩
  intro hcounted
  exact absurd hcounted.total (by decide)

end ErrorHandling

end SilverNetwork
