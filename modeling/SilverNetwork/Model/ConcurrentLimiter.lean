import SilverNetwork.Foundations.Interleaving
import SilverNetwork.Model.Security

/-! The rate limiter, as several callers see it. A check reads the clock before it has the guard of
the peer's queue, and what is done to all peers is done one shard of the map after the other. -/

namespace SilverNetwork

namespace Security

/-- How the map is sharded, which the hash function and the processor count decide. -/
structure LimiterLayout (PeerId : Type) where
  shards : ℕ
  shardOf : PeerId → Fin shards

variable {PeerId : Type}

inductive LimiterAct (L : LimiterLayout PeerId) where
  | readClock
  | check (peer : PeerId) (now : Instant)
  | count (peer : PeerId)
  | remove (peer : PeerId)
  | clearShard (shard : Fin L.shards)
  | lenShard (shard : Fin L.shards)

variable {L : LimiterLayout PeerId}

@[reducible] def LimiterAct.Answer : LimiterAct L → Type
  | .readClock => Instant
  | .check _ _ => Except NetworkError Unit
  | .count _ => ℕ
  | .lenShard _ => ℕ
  | _ => Unit

/-- The limiter and the clock. -/
structure SharedLimiter (PeerId : Type) where
  limiter : RateLimiter PeerId
  now : Instant

variable [DecidableEq PeerId] [ToString PeerId]

/-- No action panics. -/
def LimiterAct.perform (s : SharedLimiter PeerId) :
    (action : LimiterAct L) → action.Answer × SharedLimiter PeerId
  | .readClock => (s.now, s)
  | .check peer now =>
      let (result, limiter) := s.limiter.checkRateLimit peer now
      (result, { s with limiter })
  | .count peer => (s.limiter.getMessageCount peer, s)
  | .remove peer => ((), { s with limiter := s.limiter.clearPeer peer })
  | .clearShard shard =>
      ((), { s with limiter.peerMessages :=
        HashMap.retain s.limiter.peerMessages fun peer _ => L.shardOf peer ≠ shard })
  | .lenShard shard =>
      ((HashMap.retain s.limiter.peerMessages fun peer _ => L.shardOf peer = shard).len, s)

abbrev LimiterProgram (L : LimiterLayout PeerId) : Type → Type :=
  AtomicProgram (LimiterAct L) LimiterAct.Answer

namespace LimiterProgram

abbrev act (action : LimiterAct L) : LimiterProgram L action.Answer := AtomicProgram.once action

def checkRateLimit (L : LimiterLayout PeerId) (peer : PeerId) :
    LimiterProgram L (Except NetworkError Unit) := do
  let now ← act .readClock
  act (.check peer now)

def getMessageCount (L : LimiterLayout PeerId) (peer : PeerId) : LimiterProgram L ℕ :=
  act (.count peer)

def clearPeer (L : LimiterLayout PeerId) (peer : PeerId) : LimiterProgram L Unit :=
  act (.remove peer)

def clearShards : List (Fin L.shards) → LimiterProgram L Unit
  | [] => pure ()
  | shard :: rest => do
      act (.clearShard shard)
      clearShards rest

def clearAll (L : LimiterLayout PeerId) : LimiterProgram L Unit :=
  clearShards (List.finRange L.shards)

def lenShards : List (Fin L.shards) → ℕ → LimiterProgram L ℕ
  | [], total => pure total
  | shard :: rest, total => do
      let len ← act (.lenShard shard)
      lenShards rest (total + len)

def trackedPeersCount (L : LimiterLayout PeerId) : LimiterProgram L ℕ :=
  lenShards (List.finRange L.shards) 0

end LimiterProgram

inductive LimiterOp (PeerId : Type) where
  | checkRateLimit (peer : PeerId)
  | getMessageCount (peer : PeerId)
  | clearPeer (peer : PeerId)
  | clearAll
  | trackedPeersCount
  deriving DecidableEq

inductive LimiterResult where
  | checked (result : Except NetworkError Unit)
  | count (n : ℕ)
  | cleared

def LimiterOp.program (L : LimiterLayout PeerId) :
    LimiterOp PeerId → LimiterProgram L LimiterResult
  | .checkRateLimit peer => do return .checked (← LimiterProgram.checkRateLimit L peer)
  | .getMessageCount peer => do return .count (← LimiterProgram.getMessageCount L peer)
  | .clearPeer peer => do
      LimiterProgram.clearPeer L peer
      return .cleared
  | .clearAll => do
      LimiterProgram.clearAll L
      return .cleared
  | .trackedPeersCount => do return .count (← LimiterProgram.trackedPeersCount L)

def sharedLimiter (L : LimiterLayout PeerId) :
    SharedObject (SharedLimiter PeerId) Unit Duration (LimiterOp PeerId) LimiterResult
      (LimiterAct L) LimiterAct.Answer where
  perform := fun action _ s => (action.perform s).map some id
  program := LimiterOp.program L
  elapse := fun duration s => { s with now := s.now + duration }

abbrev ConcurrentLimiter (L : LimiterLayout PeerId) (Caller : Type) : Type :=
  Concurrent (SharedLimiter PeerId) Caller (LimiterOp PeerId) LimiterResult (LimiterAct L)
    LimiterAct.Answer

abbrev ConcurrentLimiterCall (L : LimiterLayout PeerId) (Caller : Type) : Type :=
  Call (ConcurrentLimiter L Caller) (ConcurrentEvent Unit Duration Caller (LimiterOp PeerId))
    (Progress LimiterResult)

/-- Before the first call, for a limiter that has just been made. -/
def ConcurrentLimiter.new {Caller : Type} (L : LimiterLayout PeerId) (rateLimit : UInt32)
    (window : Duration) (now : Instant) : ConcurrentLimiter L Caller :=
  .start ⟨.withWindow rateLimit window, now⟩

end Security

end SilverNetwork
