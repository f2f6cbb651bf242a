import SilverNetwork.Foundations.Interleaving
import SilverNetwork.Model.ErrorLogging

/-! The error logger as several callers see it. Each counter is an atomic of its own, and only the
history is behind a lock. The operations on the counters are relaxed; here they have one order. -/

namespace SilverNetwork

namespace ErrorLogging

inductive ErrorCounter where
  | total
  | connection
  | message
  | peer
  | timeout
  | rateLimit
  | critical
  | recovered
  deriving DecidableEq, Repr

/-- The counter of a category, where it has one. -/
def ErrorCategory.ownCounter : ErrorCategory → Option ErrorCounter
  | .connection => some .connection
  | .message => some .message
  | .peer => some .peer
  | .timeout => some .timeout
  | .rateLimit => some .rateLimit
  | .critical => some .critical
  | .configuration | .resource | .other => none

namespace ErrorMetrics

def load (counter : ErrorCounter) (m : ErrorMetrics) : UInt64 :=
  match counter with
  | .total => m.totalErrors
  | .connection => m.connectionErrors
  | .message => m.messageErrors
  | .peer => m.peerErrors
  | .timeout => m.timeoutErrors
  | .rateLimit => m.rateLimitErrors
  | .critical => m.criticalErrors
  | .recovered => m.recoveredErrors

def fetchAdd (counter : ErrorCounter) (m : ErrorMetrics) : ErrorMetrics :=
  match counter with
  | .total => { m with totalErrors := m.totalErrors + 1 }
  | .connection => { m with connectionErrors := m.connectionErrors + 1 }
  | .message => { m with messageErrors := m.messageErrors + 1 }
  | .peer => { m with peerErrors := m.peerErrors + 1 }
  | .timeout => { m with timeoutErrors := m.timeoutErrors + 1 }
  | .rateLimit => { m with rateLimitErrors := m.rateLimitErrors + 1 }
  | .critical => { m with criticalErrors := m.criticalErrors + 1 }
  | .recovered => { m with recoveredErrors := m.recoveredErrors + 1 }

end ErrorMetrics

inductive LoggerAct where
  | fetchAdd (counter : ErrorCounter)
  | load (counter : ErrorCounter)
  | readClock
  | push (entry : ErrorLogEntry)
  | history
  | clear
  deriving DecidableEq

@[reducible] def LoggerAct.Answer : LoggerAct → Type
  | .load _ => UInt64
  | .readClock => SystemTime
  | .history => List ErrorLogEntry
  | _ => Unit

/-- The wall clock may read anything. No action panics. -/
def LoggerAct.perform (now : SystemTime) (l : ErrorLogger) :
    (action : LoggerAct) → action.Answer × ErrorLogger
  | .fetchAdd counter => ((), { l with metrics := l.metrics.fetchAdd counter })
  | .load counter => (l.metrics.load counter, l)
  | .readClock => (now, l)
  | .push entry => ((), { l with history := BoundedHistory.push l.maxHistorySize l.history entry })
  | .history => (l.getHistory, l)
  | .clear => ((), l.clearHistory)

abbrev LoggerProgram : Type → Type := AtomicProgram LoggerAct LoggerAct.Answer

namespace LoggerProgram

abbrev act (action : LoggerAct) : LoggerProgram action.Answer := AtomicProgram.once action

def recordError (category : ErrorCategory) : LoggerProgram Unit := do
  act (.fetchAdd .total)
  match category.ownCounter with
  | some counter => act (.fetchAdd counter)
  | none => pure ()

def recordRecovered : LoggerProgram Unit := act (.fetchAdd .recovered)

def logError (error : NetworkError) (context : ErrorContext) (recovered : Bool)
    (recoveryAction : Option String) : LoggerProgram Unit := do
  let category := ErrorCategory.fromError error
  recordError category
  if recovered then recordRecovered else pure ()
  let timestamp ← act .readClock
  act (.push { error := error.display, context, category, timestamp, recovered, recoveryAction })

def getHistory : LoggerProgram (List ErrorLogEntry) := act .history

def getRecentErrors (count : ℕ) : LoggerProgram (List ErrorLogEntry) := do
  let history ← act .history
  return (history.reverse.take count).reverse

def getErrorsByCategory (category : ErrorCategory) : LoggerProgram (List ErrorLogEntry) := do
  let history ← act .history
  return history.filter fun entry => entry.category = category

def clearHistory : LoggerProgram Unit := act .clear

def getSummary : LoggerProgram ErrorMetrics := do
  let totalErrors ← act (.load .total)
  let connectionErrors ← act (.load .connection)
  let messageErrors ← act (.load .message)
  let peerErrors ← act (.load .peer)
  let timeoutErrors ← act (.load .timeout)
  let rateLimitErrors ← act (.load .rateLimit)
  let criticalErrors ← act (.load .critical)
  let recoveredErrors ← act (.load .recovered)
  return ⟨totalErrors, connectionErrors, messageErrors, peerErrors, timeoutErrors,
    rateLimitErrors, criticalErrors, recoveredErrors⟩

end LoggerProgram

inductive LoggerOp where
  | logError (error : NetworkError) (context : ErrorContext) (recovered : Bool)
      (recoveryAction : Option String)
  | clearHistory
  | getHistory
  | getRecentErrors (count : ℕ)
  | getErrorsByCategory (category : ErrorCategory)
  | getSummary

def LoggerOp.program : LoggerOp → LoggerProgram LoggerResult
  | .logError error context recovered recoveryAction => do
      LoggerProgram.logError error context recovered recoveryAction
      return .done
  | .clearHistory => do
      LoggerProgram.clearHistory
      return .done
  | .getHistory => do return .entries (← LoggerProgram.getHistory)
  | .getRecentErrors count => do return .entries (← LoggerProgram.getRecentErrors count)
  | .getErrorsByCategory category => do
      return .entries (← LoggerProgram.getErrorsByCategory category)
  | .getSummary => do return .summary (← LoggerProgram.getSummary)

/-- Nothing happens to the logger by itself. -/
def sharedLogger : SharedObject ErrorLogger SystemTime Empty LoggerOp LoggerResult LoggerAct
    LoggerAct.Answer where
  perform := fun action now l => (action.perform now l).map some id
  program := LoggerOp.program
  elapse := fun _ l => l

abbrev ConcurrentLogger (Caller : Type) : Type :=
  Concurrent ErrorLogger Caller LoggerOp LoggerResult LoggerAct LoggerAct.Answer

abbrev ConcurrentLoggerCall (Caller : Type) : Type :=
  Call (ConcurrentLogger Caller) (ConcurrentEvent SystemTime Empty Caller LoggerOp)
    (Progress LoggerResult)

end ErrorLogging

end SilverNetwork
