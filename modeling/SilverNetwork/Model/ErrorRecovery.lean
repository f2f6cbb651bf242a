import SilverNetwork.Foundations.Binary64
import SilverNetwork.Foundations.HashMap
import SilverNetwork.Foundations.Machine
import SilverNetwork.Foundations.Overflow
import SilverNetwork.Model.Error

/-! The error recovery as a single caller sees it: the rate limiter, whose count is atomic and
so wraps under either overflow setting, the exponential backoff, and the manager that keeps a
backoff, a limiter and an error count for each peer. -/

namespace SilverNetwork

namespace ErrorRecovery

def second : Duration := 1_000_000_000

structure RateLimiter where
  maxMessagesPerSec : UInt32
  messageCount : UInt32
  lastReset : Instant
  deriving DecidableEq

namespace RateLimiter

def new (maxMessagesPerSec : UInt32) (now : Instant) : RateLimiter where
  maxMessagesPerSec := maxMessagesPerSec
  messageCount := 0
  lastReset := now

def allowMessage (now : Instant) (l : RateLimiter) : Bool × RateLimiter :=
  let l := if second ≤ now - l.lastReset then { l with messageCount := 0, lastReset := now } else l
  (decide (l.messageCount < l.maxMessagesPerSec), { l with messageCount := l.messageCount + 1 })

def reset (now : Instant) (l : RateLimiter) : RateLimiter :=
  { l with messageCount := 0, lastReset := now }

end RateLimiter

inductive RateLimiterEvent where
  | allowMessage (now : Instant)
  | reset (now : Instant)

inductive RateLimiterResult where
  | allowed (answer : Bool)
  | done

def rateLimiterStep (l : RateLimiter) :
    RateLimiterEvent → Option (RateLimiterResult × RateLimiter)
  | .allowMessage now => some ((l.allowMessage now).map .allowed id)
  | .reset now => some (.done, l.reset now)

def rateLimiterMachine : Machine RateLimiter RateLimiterEvent RateLimiterResult where
  step := rateLimiterStep

abbrev RateLimiterCall : Type := Call RateLimiter RateLimiterEvent RateLimiterResult

/-- A limiter with the throttle duration that it is built with. Only the manager reads it. -/
structure PeerRateLimiter extends RateLimiter where
  throttleDuration : Duration
  deriving DecidableEq

def PeerRateLimiter.new (maxMessagesPerSec : UInt32) (throttleDuration : Duration)
    (now : Instant) : PeerRateLimiter where
  toRateLimiter := .new maxMessagesPerSec now
  throttleDuration := throttleDuration

/-! ## The exponential backoff -/

def millisecond : Duration := 1_000_000

structure ExponentialBackoff where
  initialDelayMs : UInt64
  maxDelayMs : UInt64
  attempt : UInt32
  lastBackoff : Option Instant
  deriving DecidableEq

namespace ExponentialBackoff

def new (initialDelayMs maxDelayMs : UInt64) : ExponentialBackoff where
  initialDelayMs := initialDelayMs
  maxDelayMs := maxDelayMs
  attempt := 0
  lastBackoff := none

/-- The delay before the jitter. -/
def delayMs (b : ExponentialBackoff) : UInt64 :=
  min (Saturating.mul64 b.initialDelayMs (Saturating.pow64 2 b.attempt)) b.maxDelayMs

/-- `(delay_ms as f64 * 0.1) as u64`, where the float `0.1` is 3602879701896397 / 2⁵⁵. -/
def jitter (delayMs : UInt64) : UInt64 :=
  UInt64.ofNat (Binary64.truncMul 3602879701896397 55 delayMs.toNat)

/-- A jitter of zero makes the remainder panic. -/
def jitteredDelay (delayMs : UInt64) (wall : SystemTime) : Option UInt64 :=
  if jitter delayMs = 0 then none
  else some (Saturating.add64 (Saturating.sub64 delayMs (jitter delayMs / 2))
    (UInt64.ofNat wall.sinceEpoch % jitter delayMs))

def nextBackoff (wall : SystemTime) (now : Instant) (b : ExponentialBackoff) :
    Option (Duration × ExponentialBackoff) :=
  (jitteredDelay b.delayMs wall).map fun delay =>
    (delay.toNat * millisecond,
      { b with attempt := Saturating.add32 b.attempt 1, lastBackoff := some now })

def reset (b : ExponentialBackoff) : ExponentialBackoff :=
  { b with attempt := 0, lastBackoff := none }

def attemptCount (b : ExponentialBackoff) : UInt32 := b.attempt

def isReadyToRetry (now : Instant) (b : ExponentialBackoff) : Bool :=
  match b.lastBackoff with
  | none => true
  | some last => b.delayMs.toNat * millisecond ≤ now - last

/-- `jitteredDelay` with another reading of a tenth of the delay. -/
def jitteredDelayBy (jitter : UInt64 → UInt64) (delayMs : UInt64) (wall : SystemTime) :
    Option UInt64 :=
  if jitter delayMs = 0 then none
  else some (Saturating.add64 (Saturating.sub64 delayMs (jitter delayMs / 2))
    (UInt64.ofNat wall.sinceEpoch % jitter delayMs))

def nextBackoffBy (jitter : UInt64 → UInt64) (wall : SystemTime) (now : Instant)
    (b : ExponentialBackoff) : Option (Duration × ExponentialBackoff) :=
  (jitteredDelayBy jitter b.delayMs wall).map fun delay =>
    (delay.toNat * millisecond,
      { b with attempt := Saturating.add32 b.attempt 1, lastBackoff := some now })

theorem nextBackoff_eq : nextBackoff = nextBackoffBy jitter := rfl

end ExponentialBackoff

inductive BackoffEvent where
  | nextBackoff (wall : SystemTime) (now : Instant)
  | reset
  | attemptCount
  | isReadyToRetry (now : Instant)
  deriving DecidableEq

inductive BackoffResult where
  | delay (duration : Duration)
  | done
  | count (attempts : UInt32)
  | ready (answer : Bool)

def backoffStep (jitter : UInt64 → UInt64) (b : ExponentialBackoff) :
    BackoffEvent → Option (BackoffResult × ExponentialBackoff)
  | .nextBackoff wall now => (b.nextBackoffBy jitter wall now).map (Prod.map .delay id)
  | .reset => some (.done, b.reset)
  | .attemptCount => some (.count b.attemptCount, b)
  | .isReadyToRetry now => some (.ready (b.isReadyToRetry now), b)

def backoffMachine (jitter : UInt64 → UInt64) :
    Machine ExponentialBackoff BackoffEvent BackoffResult where
  step := backoffStep jitter

abbrev BackoffCall : Type := Call ExponentialBackoff BackoffEvent BackoffResult

/-! ## The recovery manager -/

inductive RecoveryAction where
  | scheduleReconnect (delay : Duration)
  | throttle (duration : Duration)
  | reconnect
  | retry
  | waitAndRetry (duration : Duration)
  | alert
  | failStartup
  | ban
  | log
  deriving DecidableEq, Repr

structure ErrorRecoveryManager where
  backoffStates : HashMap String ExponentialBackoff
  rateLimiters : HashMap String PeerRateLimiter
  errorCounts : HashMap String UInt32
  maxErrorsBeforeBan : UInt32

/-- What a call reads from the clocks: the wall clock, for the jitter, and the monotonic one. -/
structure Clocks where
  wall : SystemTime
  now : Instant
  deriving DecidableEq

/-- What a recovery returns, with the manager after it; `none` where it panics. -/
abbrev Recovery : Type := Option (Except NetworkError RecoveryAction × ErrorRecoveryManager)

namespace ErrorRecoveryManager

def new (maxErrorsBeforeBan : UInt32) : ErrorRecoveryManager where
  backoffStates := ∅
  rateLimiters := ∅
  errorCounts := ∅
  maxErrorsBeforeBan := maxErrorsBeforeBan

def handleExponentialBackoff (peer : String) (clocks : Clocks) (m : ErrorRecoveryManager) :
    Recovery :=
  let backoff := (m.backoffStates.lookup peer).getD (.new 1000 300000)
  (backoff.nextBackoff clocks.wall clocks.now).map fun (delay, backoff) =>
    (.ok (.scheduleReconnect delay),
      { m with backoffStates := m.backoffStates.insert peer backoff })

def handleThrottle (peer : String) (clocks : Clocks) (m : ErrorRecoveryManager) : Recovery :=
  let limiter := (m.rateLimiters.lookup peer).getD (.new 100 (60 * second) clocks.now)
  some (.ok (.throttle limiter.throttleDuration),
    { m with rateLimiters := m.rateLimiters.insert peer limiter })

def handleReconnect (peer : String) (m : ErrorRecoveryManager) : Recovery :=
  let count := Saturating.add32 ((m.errorCounts.lookup peer).getD 0) 1
  some (.ok (if m.maxErrorsBeforeBan < count then .ban else .reconnect),
    { m with errorCounts := m.errorCounts.insert peer count })

def handleRetry (m : ErrorRecoveryManager) : Recovery := some (.ok .retry, m)

def handleWaitAndRetry (m : ErrorRecoveryManager) : Recovery :=
  some (.ok (.waitAndRetry (5 * second)), m)

def handleAlert (m : ErrorRecoveryManager) : Recovery := some (.ok .alert, m)

def handleFailStartup (m : ErrorRecoveryManager) : Recovery := some (.ok .failStartup, m)

def handleLog (m : ErrorRecoveryManager) : Recovery := some (.ok .log, m)

def handleError (peer : String) (error : NetworkError) (clocks : Clocks)
    (m : ErrorRecoveryManager) : Recovery :=
  match error.recoveryStrategy with
  | .exponentialBackoff => m.handleExponentialBackoff peer clocks
  | .throttle => m.handleThrottle peer clocks
  | .reconnect => m.handleReconnect peer
  | .retry => m.handleRetry
  | .waitAndRetry => m.handleWaitAndRetry
  | .alert => m.handleAlert
  | .failStartup => m.handleFailStartup
  | .log => m.handleLog

def resetErrorCount (peer : String) (m : ErrorRecoveryManager) : ErrorRecoveryManager :=
  { m with
    errorCounts := m.errorCounts.erase peer
    backoffStates := match m.backoffStates.lookup peer with
      | none => m.backoffStates
      | some backoff => m.backoffStates.insert peer backoff.reset }

def getErrorCount (peer : String) (m : ErrorRecoveryManager) : UInt32 :=
  (m.errorCounts.lookup peer).getD 0

def shouldBanPeer (peer : String) (m : ErrorRecoveryManager) : Bool :=
  m.maxErrorsBeforeBan < m.getErrorCount peer

end ErrorRecoveryManager

inductive RecoveryEvent where
  | handleError (peer : String) (error : NetworkError) (clocks : Clocks)
  | resetErrorCount (peer : String)
  deriving DecidableEq

inductive RecoveryResult where
  | answer (action : Except NetworkError RecoveryAction)
  | done

def recoveryStep (m : ErrorRecoveryManager) :
    RecoveryEvent → Option (RecoveryResult × ErrorRecoveryManager)
  | .handleError peer error clocks => (m.handleError peer error clocks).map (Prod.map .answer id)
  | .resetErrorCount peer => some (.done, m.resetErrorCount peer)

def recoveryMachine : Machine ErrorRecoveryManager RecoveryEvent RecoveryResult where
  step := recoveryStep

abbrev RecoveryCall : Type := Call ErrorRecoveryManager RecoveryEvent RecoveryResult

end ErrorRecovery

end SilverNetwork
