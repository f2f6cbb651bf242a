import SilverNetwork.Foundations.BoundedHistory
import SilverNetwork.Foundations.Machine
import SilverNetwork.Model.Error

/-! The error logger. Its counters are atomic, so that they wrap under either overflow
setting, and its history is a queue of bounded size. -/

namespace SilverNetwork

namespace ErrorLogging

inductive ErrorCategory where
  | connection
  | message
  | peer
  | configuration
  | timeout
  | rateLimit
  | resource
  | critical
  | other
  deriving DecidableEq, Repr

def ErrorCategory.fromError : NetworkError → ErrorCategory
  | .connectionFailed _ | .connectionTimeout _ | .connectionRefused _ | .connectionReset _
  | .handshakeFailed _ => .connection
  | .serializationError _ | .deserializationError _ | .messageParsingFailed _
  | .malformedMessage _ | .invalidMessageFormat _ | .messageTooLarge _ _ => .message
  | .invalidPeer _ | .peerNotFound _ | .peerDisconnected _ | .peerUnhealthy _ => .peer
  | .configurationError _ | .invalidConfiguration _ => .configuration
  | .operationTimeout _ => .timeout
  | .rateLimitExceeded _ => .rateLimit
  | .resourceExhaustion _ => .resource
  | .criticalError _ => .critical
  | _ => .other

structure ErrorLogEntry where
  error : String
  context : ErrorContext
  category : ErrorCategory
  timestamp : SystemTime
  recovered : Bool
  recoveryAction : Option String
  deriving DecidableEq, Repr

structure ErrorMetrics where
  totalErrors : UInt64
  connectionErrors : UInt64
  messageErrors : UInt64
  peerErrors : UInt64
  timeoutErrors : UInt64
  rateLimitErrors : UInt64
  criticalErrors : UInt64
  recoveredErrors : UInt64
  deriving DecidableEq

namespace ErrorMetrics

/-- `ErrorMetrics::default()`. -/
def zero : ErrorMetrics := ⟨0, 0, 0, 0, 0, 0, 0, 0⟩

def recordError (category : ErrorCategory) (m : ErrorMetrics) : ErrorMetrics :=
  let m := { m with totalErrors := m.totalErrors + 1 }
  match category with
  | .connection => { m with connectionErrors := m.connectionErrors + 1 }
  | .message => { m with messageErrors := m.messageErrors + 1 }
  | .peer => { m with peerErrors := m.peerErrors + 1 }
  | .timeout => { m with timeoutErrors := m.timeoutErrors + 1 }
  | .rateLimit => { m with rateLimitErrors := m.rateLimitErrors + 1 }
  | .critical => { m with criticalErrors := m.criticalErrors + 1 }
  | .configuration | .resource | .other => m

def recordRecovered (m : ErrorMetrics) : ErrorMetrics :=
  { m with recoveredErrors := m.recoveredErrors + 1 }

/-- The counter of a category, where it has one. -/
def counter (m : ErrorMetrics) : ErrorCategory → Option UInt64
  | .connection => some m.connectionErrors
  | .message => some m.messageErrors
  | .peer => some m.peerErrors
  | .timeout => some m.timeoutErrors
  | .rateLimit => some m.rateLimitErrors
  | .critical => some m.criticalErrors
  | .configuration | .resource | .other => none

end ErrorMetrics

structure ErrorLogger where
  history : List ErrorLogEntry
  maxHistorySize : ℕ
  metrics : ErrorMetrics

namespace ErrorLogger

/-- `VecDeque::with_capacity` reserves the history; a capacity that it cannot reserve panics there
and leaves no logger. -/
def new (maxHistorySize : ℕ) : ErrorLogger where
  history := []
  maxHistorySize := maxHistorySize
  metrics := .zero

def logError (error : NetworkError) (context : ErrorContext) (recovered : Bool)
    (recoveryAction : Option String) (now : SystemTime) (l : ErrorLogger) : ErrorLogger :=
  let category := ErrorCategory.fromError error
  let metrics := l.metrics.recordError category
  let entry : ErrorLogEntry :=
    { error := error.display, context, category, timestamp := now, recovered, recoveryAction }
  { l with
    metrics := if recovered then metrics.recordRecovered else metrics
    history := BoundedHistory.push l.maxHistorySize l.history entry }

def getHistory (l : ErrorLogger) : List ErrorLogEntry := l.history

def getRecentErrors (count : ℕ) (l : ErrorLogger) : List ErrorLogEntry :=
  (l.history.reverse.take count).reverse

def getErrorsByCategory (category : ErrorCategory) (l : ErrorLogger) : List ErrorLogEntry :=
  l.history.filter fun entry => entry.category = category

def clearHistory (l : ErrorLogger) : ErrorLogger := { l with history := [] }

/-- The summary has the fields of the metrics. -/
def getSummary (l : ErrorLogger) : ErrorMetrics := l.metrics

end ErrorLogger

inductive LoggerEvent where
  | logError (error : NetworkError) (context : ErrorContext) (recovered : Bool)
      (recoveryAction : Option String) (now : SystemTime)
  | clearHistory
  | getHistory
  | getRecentErrors (count : ℕ)
  | getErrorsByCategory (category : ErrorCategory)
  | getSummary

inductive LoggerResult where
  | done
  | entries (entries : List ErrorLogEntry)
  | summary (metrics : ErrorMetrics)

def loggerStep (l : ErrorLogger) : LoggerEvent → LoggerResult × ErrorLogger
  | .logError error context recovered recoveryAction now =>
      (.done, l.logError error context recovered recoveryAction now)
  | .clearHistory => (.done, l.clearHistory)
  | .getHistory => (.entries l.getHistory, l)
  | .getRecentErrors count => (.entries (l.getRecentErrors count), l)
  | .getErrorsByCategory category => (.entries (l.getErrorsByCategory category), l)
  | .getSummary => (.summary l.getSummary, l)

def loggerMachine : Machine ErrorLogger LoggerEvent LoggerResult where
  step l e := some (loggerStep l e)

abbrev LoggerCall : Type := Call ErrorLogger LoggerEvent LoggerResult

end ErrorLogging

end SilverNetwork
