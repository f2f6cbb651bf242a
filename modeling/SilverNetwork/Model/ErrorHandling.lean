import SilverNetwork.Model.ErrorLogging
import SilverNetwork.Model.ErrorRecovery

/-! The error handler that brings recovery and logging together, as a single caller sees it.
A custom handler is given the error and its context and keeps a state of its own. -/

namespace SilverNetwork

namespace ErrorHandling

open ErrorLogging ErrorRecovery

/-! ## What `{:?}` prints of a recovery action -/

/-- A number with its decimals, the trailing zeros left out. -/
def decimal (whole fraction digits : ℕ) : String :=
  let decimals := ((Nat.toDigits 10 fraction).leftpad digits '0').rdropWhile fun d => d = '0'
  toString whole ++ if decimals.isEmpty then "" else "." ++ String.ofList decimals

def durationDebug (d : Duration) : String :=
  if second ≤ d then decimal (d / second) (d % second) 9 ++ "s"
  else if millisecond ≤ d then decimal (d / millisecond) (d % millisecond) 6 ++ "ms"
  else if 1000 ≤ d then decimal (d / 1000) (d % 1000) 3 ++ "µs"
  else toString d ++ "ns"

def actionDebug : RecoveryAction → String
  | .scheduleReconnect delay => "ScheduleReconnect(" ++ durationDebug delay ++ ")"
  | .throttle duration => "Throttle(" ++ durationDebug duration ++ ")"
  | .reconnect => "Reconnect"
  | .retry => "Retry"
  | .waitAndRetry duration => "WaitAndRetry(" ++ durationDebug duration ++ ")"
  | .alert => "Alert"
  | .failStartup => "FailStartup"
  | .ban => "Ban"
  | .log => "Log"

/-! ## The handler -/

/-- The trait of a custom handler, with a state for it to keep; `none` where it does not
return. -/
structure ErrorHandler (κ : Type) where
  handleError : NetworkError → ErrorContext → κ → Option κ
  handleCriticalError : NetworkError → ErrorContext → κ → Option κ
  handleRecoverableError : NetworkError → ErrorContext → κ → Option κ

structure ComprehensiveErrorHandler (κ : Type) where
  logger : ErrorLogger
  recoveryManager : ErrorRecoveryManager
  customHandler : Option (ErrorHandler κ)
  customState : κ
  enableAlerts : Bool

/-- What a call reads from the clocks: for the recovery, for the entry of an alert and for the
entry of the call itself. -/
structure HandlerClocks where
  recovery : Clocks
  alert : SystemTime
  entry : SystemTime
  deriving DecidableEq

namespace ComprehensiveErrorHandler

variable {κ : Type}

def new (logger : ErrorLogger) (recoveryManager : ErrorRecoveryManager) (enableAlerts : Bool)
    (customState : κ) : ComprehensiveErrorHandler κ where
  logger := logger
  recoveryManager := recoveryManager
  customHandler := none
  customState := customState
  enableAlerts := enableAlerts

def withCustomHandler (handler : ErrorHandler κ) (h : ComprehensiveErrorHandler κ) :
    ComprehensiveErrorHandler κ :=
  { h with customHandler := some handler }

def callCustomHandler (error : NetworkError) (context : ErrorContext)
    (h : ComprehensiveErrorHandler κ) : Option (ComprehensiveErrorHandler κ) :=
  match h.customHandler with
  | none => some h
  | some handler =>
      let call :=
        if error.isCritical then handler.handleCriticalError
        else if error.isRecoverable then handler.handleRecoverableError
        else handler.handleError
      (call error context h.customState).map fun customState => { h with customState }

/-- The body that five of the handlers share: they differ in what they trace. -/
def recover (peer : String) (error : NetworkError) (clocks : Clocks)
    (h : ComprehensiveErrorHandler κ) : Option (RecoveryAction × ComprehensiveErrorHandler κ) :=
  (h.recoveryManager.handleError peer error clocks).map fun (answer, recoveryManager) =>
    (match answer with
      | .ok action => action
      | .error _ => .log,
      { h with recoveryManager })

def handleConnectionError (peer : String) (error : NetworkError) (clocks : Clocks)
    (h : ComprehensiveErrorHandler κ) : Option (RecoveryAction × ComprehensiveErrorHandler κ) :=
  h.recover peer error clocks

def handleRateLimitError (peer : String) (error : NetworkError) (clocks : Clocks)
    (h : ComprehensiveErrorHandler κ) : Option (RecoveryAction × ComprehensiveErrorHandler κ) :=
  h.recover peer error clocks

def handlePeerError (peer : String) (error : NetworkError) (clocks : Clocks)
    (h : ComprehensiveErrorHandler κ) : Option (RecoveryAction × ComprehensiveErrorHandler κ) :=
  h.recover peer error clocks

def handleRetryError (peer : String) (error : NetworkError) (clocks : Clocks)
    (h : ComprehensiveErrorHandler κ) : Option (RecoveryAction × ComprehensiveErrorHandler κ) :=
  h.recover peer error clocks

def handleNetworkPartition (peer : String) (error : NetworkError) (clocks : Clocks)
    (h : ComprehensiveErrorHandler κ) : Option (RecoveryAction × ComprehensiveErrorHandler κ) :=
  h.recover peer error clocks

/-- The alert is logged as recovered, whatever the manager answers. -/
def sendOperatorAlert (error : NetworkError) (context : ErrorContext) (clocks : HandlerClocks)
    (h : ComprehensiveErrorHandler κ) : Option (ComprehensiveErrorHandler κ) :=
  let peer := context.peerId.getD "unknown"
  (h.recoveryManager.handleError peer error clocks.recovery).map fun (answer, recoveryManager) =>
    let recoveryAction := answer.toOption.map actionDebug
    { h with
      recoveryManager
      logger := h.logger.logError error context true recoveryAction clocks.alert }

def handleCriticalError (error : NetworkError) (context : ErrorContext) (clocks : HandlerClocks)
    (h : ComprehensiveErrorHandler κ) : Option (RecoveryAction × ComprehensiveErrorHandler κ) :=
  if h.enableAlerts then (h.sendOperatorAlert error context clocks).map fun h => (.alert, h)
  else some (.alert, h)

def handleStartupError (h : ComprehensiveErrorHandler κ) :
    Option (RecoveryAction × ComprehensiveErrorHandler κ) :=
  some (.failStartup, h)

def handleLogOnlyError (h : ComprehensiveErrorHandler κ) :
    Option (RecoveryAction × ComprehensiveErrorHandler κ) :=
  some (.log, h)

def dispatch (error : NetworkError) (context : ErrorContext) (clocks : HandlerClocks)
    (h : ComprehensiveErrorHandler κ) : Option (RecoveryAction × ComprehensiveErrorHandler κ) :=
  let peer := context.peerId.getD "unknown"
  match error.recoveryStrategy with
  | .exponentialBackoff => h.handleConnectionError peer error clocks.recovery
  | .throttle => h.handleRateLimitError peer error clocks.recovery
  | .reconnect => h.handlePeerError peer error clocks.recovery
  | .retry => h.handleRetryError peer error clocks.recovery
  | .waitAndRetry => h.handleNetworkPartition peer error clocks.recovery
  | .alert => h.handleCriticalError error context clocks
  | .failStartup => h.handleStartupError
  | .log => h.handleLogOnlyError

def handleError (error : NetworkError) (context : ErrorContext) (clocks : HandlerClocks)
    (h : ComprehensiveErrorHandler κ) :
    Option (Except NetworkError RecoveryAction × ComprehensiveErrorHandler κ) := do
  let h ← h.callCustomHandler error context
  let (action, h) ← h.dispatch error context clocks
  some (.ok action,
    { h with
      logger := h.logger.logError error context error.isRecoverable (some (actionDebug action))
        clocks.entry })

end ComprehensiveErrorHandler

structure HandlerEvent where
  error : NetworkError
  context : ErrorContext
  clocks : HandlerClocks
  deriving DecidableEq

def handlerMachine (κ : Type) :
    Machine (ComprehensiveErrorHandler κ) HandlerEvent (Except NetworkError RecoveryAction) where
  step h e := h.handleError e.error e.context e.clocks

abbrev HandlerCall (κ : Type) : Type :=
  Call (ComprehensiveErrorHandler κ) HandlerEvent (Except NetworkError RecoveryAction)

end ErrorHandling

end SilverNetwork
