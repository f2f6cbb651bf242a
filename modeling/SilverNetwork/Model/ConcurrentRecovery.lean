import SilverNetwork.Foundations.LockedObject
import SilverNetwork.Model.ErrorRecovery

/-! The recovery manager as several callers see it. Each of its three maps has a lock of its own,
and a reset takes the second one while it holds the first. -/

namespace SilverNetwork

namespace ErrorRecovery

inductive RecoveryLock where
  | backoffStates
  | rateLimiters
  | errorCounts
  deriving DecidableEq, Repr

inductive RecoveryOp where
  | event (e : RecoveryEvent)
  | getErrorCount (peer : String)
  | shouldBanPeer (peer : String)
  deriving DecidableEq

inductive RecoveryAnswer where
  | event (result : RecoveryResult)
  | count (n : UInt32)
  | banned (answer : Bool)

/-- The manager as a single caller sees it. -/
def recoveryOpStep (m : ErrorRecoveryManager) :
    RecoveryOp → Option (RecoveryAnswer × ErrorRecoveryManager)
  | .event e => (recoveryStep m e).map (Prod.map .event id)
  | .getErrorCount peer => some (.count (m.getErrorCount peer), m)
  | .shouldBanPeer peer => some (.banned (m.shouldBanPeer peer), m)

def recoveryOpMachine : Machine ErrorRecoveryManager RecoveryOp RecoveryAnswer where
  step := recoveryOpStep

abbrev RecoveryProgram (α : Type) : Type :=
  LockProgram (Guard RecoveryLock) ErrorRecoveryManager α

namespace RecoveryProgram

open LockProgram

def handleExponentialBackoff (peer : String) (clocks : Clocks) :
    RecoveryProgram (Except NetworkError RecoveryAction) :=
  guarded (.write .backoffStates)
    (answer (fun m => m.handleExponentialBackoff peer clocks) (.ok .log))

def handleThrottle (peer : String) (clocks : Clocks) :
    RecoveryProgram (Except NetworkError RecoveryAction) :=
  guarded (.write .rateLimiters) (answer (fun m => m.handleThrottle peer clocks) (.ok .log))

def handleReconnect (peer : String) : RecoveryProgram (Except NetworkError RecoveryAction) :=
  guarded (.write .errorCounts) (answer (fun m => m.handleReconnect peer) (.ok .log))

def handleError (peer : String) (error : NetworkError) (clocks : Clocks) :
    RecoveryProgram (Except NetworkError RecoveryAction) :=
  match error.recoveryStrategy with
  | .exponentialBackoff => handleExponentialBackoff peer clocks
  | .throttle => handleThrottle peer clocks
  | .reconnect => handleReconnect peer
  | .retry => pure (.ok .retry)
  | .waitAndRetry => pure (.ok (.waitAndRetry (5 * second)))
  | .alert => pure (.ok .alert)
  | .failStartup => pure (.ok .failStartup)
  | .log => pure (.ok .log)

/-- The guard of the counts lives to the end of the function. -/
def resetErrorCount (peer : String) : RecoveryProgram Unit :=
  guarded (.write .errorCounts) do
    update fun m => some { m with errorCounts := m.errorCounts.erase peer }
    guarded (.write .backoffStates) do
      update fun m => some { m with
        backoffStates := match m.backoffStates.lookup peer with
          | none => m.backoffStates
          | some backoff => m.backoffStates.insert peer backoff.reset }

def getErrorCount (peer : String) : RecoveryProgram UInt32 :=
  guarded (.read .errorCounts) (gets fun m => m.getErrorCount peer)

/-- The maximum is read without a lock, as it never changes. -/
def shouldBanPeer (peer : String) : RecoveryProgram Bool := do
  let count ← getErrorCount peer
  gets fun m => decide (m.maxErrorsBeforeBan < count)

end RecoveryProgram

def RecoveryOp.program : RecoveryOp → RecoveryProgram RecoveryAnswer
  | .event (.handleError peer error clocks) =>
      (fun result => .event (.answer result)) <$> RecoveryProgram.handleError peer error clocks
  | .event (.resetErrorCount peer) =>
      (fun _ => .event .done) <$> RecoveryProgram.resetErrorCount peer
  | .getErrorCount peer => .count <$> RecoveryProgram.getErrorCount peer
  | .shouldBanPeer peer => .banned <$> RecoveryProgram.shouldBanPeer peer

/-- Nothing happens to the manager by itself. -/
def lockedRecovery : LockedObject (Guard RecoveryLock) ErrorRecoveryManager Empty RecoveryOp
    RecoveryAnswer where
  excludes := Guard.excludes
  program := RecoveryOp.program
  elapse := fun _ m => m

end ErrorRecovery

end SilverNetwork
