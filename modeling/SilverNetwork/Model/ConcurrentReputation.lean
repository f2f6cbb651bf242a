import SilverNetwork.Foundations.Interleaving
import SilverNetwork.Model.Security

/-! The reputation of peers, as several callers see it. Each call into one of the two maps is one
action, from the lock it takes to the one it releases, and so is a reading of the clock that no
guard covers. -/

namespace SilverNetwork

namespace Security

variable {PeerId : Type}

inductive ReputationAct (PeerId : Type) where
  | readClock
  | getScore (peer : PeerId)
  | raiseScore (peer : PeerId) (amount : UInt8)
  | lowerScore (peer : PeerId) (amount : UInt8)
  | setScore (peer : PeerId) (score : UInt8)
  | getBan (peer : PeerId)
  | insertBan (peer : PeerId) (reason : String) (bannedAt : Instant)
  | removeBan (peer : PeerId)
  | retainBans (now : Instant)
  | countScores
  | countBans
  | scanScores
  | clearScores
  | clearBans

@[reducible] def ReputationAct.Answer : ReputationAct PeerId → Type
  | .readClock => Instant
  | .getScore _ => UInt8
  | .lowerScore .. => Bool
  | .getBan _ => Option (BlocklistEntry × Instant)
  | .removeBan _ => Bool
  | .retainBans _ => ℕ
  | .countScores => ℕ
  | .countBans => ℕ
  | .scanScores => List UInt8
  | _ => Unit

/-- The two maps and the clock. -/
structure SharedReputation (PeerId : Type) where
  reputation : PeerReputation PeerId
  now : Instant

/-- The readings that an action takes while it holds a guard of the scores. -/
structure ActReadings (PeerId : Type) extends UpdateReadings where
  scannedAt : PeerId → Instant

variable [DecidableEq PeerId]

namespace ReputationAct

def putScore (peer : PeerId) (entry : ReputationScore) (s : SharedReputation PeerId) :
    SharedReputation PeerId :=
  { s with reputation.scores := s.reputation.scores.insert peer entry }

def putBans (blocklist : HashMap PeerId BlocklistEntry) (s : SharedReputation PeerId) :
    SharedReputation PeerId :=
  { s with reputation.blocklist := blocklist }

/-- The score is written before a counter that overflows panics. -/
def perform (checks : OverflowChecks) (readings : ActReadings PeerId)
    (s : SharedReputation PeerId) :
    (action : ReputationAct PeerId) → Option action.Answer × SharedReputation PeerId
  | .readClock => (some s.now, s)
  | .getScore peer => (some (s.reputation.getScore peer s.now), s)
  | .raiseScore peer amount =>
      let entry := s.reputation.scoreEntry peer readings.createdAt
      let current := PeerReputation.applyDecay s.reputation.decayRate readings.readAt entry
      let entry := { entry with
        score := min (Saturating.add current amount) 100, lastUpdate := readings.updatedAt }
      match checks.add entry.goodCount 1 with
      | none => (none, putScore peer entry s)
      | some goodCount => (some (), putScore peer { entry with goodCount } s)
  | .lowerScore peer amount =>
      let entry := s.reputation.scoreEntry peer readings.createdAt
      let current := PeerReputation.applyDecay s.reputation.decayRate readings.readAt entry
      let entry := { entry with
        score := Saturating.sub current amount, lastUpdate := readings.updatedAt }
      match checks.add entry.badCount 1 with
      | none => (none, putScore peer entry s)
      | some badCount =>
          (some (decide (entry.score < s.reputation.banThreshold)),
            putScore peer { entry with badCount } s)
  | .setScore peer score =>
      let entry := s.reputation.scoreEntry peer readings.createdAt
      (some (), putScore peer { entry with score, lastUpdate := readings.updatedAt } s)
  | .getBan peer =>
      (some ((s.reputation.blocklist.lookup peer).map fun entry => (entry, s.now)), s)
  | .insertBan peer reason bannedAt =>
      let entry : BlocklistEntry := { reason, bannedAt, duration := s.reputation.banDuration }
      (some (), putBans (s.reputation.blocklist.insert peer entry) s)
  | .removeBan peer =>
      if peer ∈ s.reputation.blocklist then
        (some true, putBans (s.reputation.blocklist.erase peer) s)
      else (some false, s)
  | .retainBans now =>
      let result := s.reputation.cleanupExpiredBans now
      (some result.1, { s with reputation := result.2 })
  | .countScores => (some s.reputation.scores.len, s)
  | .countBans => (some s.reputation.blocklist.len, s)
  | .scanScores =>
      (some (s.reputation.scores.entries.map fun e =>
        PeerReputation.applyDecay s.reputation.decayRate (readings.scannedAt e.1) e.2), s)
  | .clearScores => (some (), { s with reputation.scores := ∅ })
  | .clearBans => (some (), putBans ∅ s)

end ReputationAct

abbrev ReputationProgram (PeerId : Type) : Type → Type :=
  AtomicProgram (ReputationAct PeerId) ReputationAct.Answer

namespace ReputationProgram

abbrev act (action : ReputationAct PeerId) : ReputationProgram PeerId action.Answer :=
  AtomicProgram.once action

def getScore (peer : PeerId) : ReputationProgram PeerId UInt8 := act (.getScore peer)

def increaseReputation (peer : PeerId) (amount : UInt8) : ReputationProgram PeerId Unit :=
  act (.raiseScore peer amount)

def banPeer (peer : PeerId) (reason : String) : ReputationProgram PeerId Unit := do
  let bannedAt ← act .readClock
  act (.insertBan peer reason bannedAt)
  act (.setScore peer 0)

/-- The lock of the score is released before `ban_peer` is called. -/
def decreaseReputation (peer : PeerId) (amount : UInt8) (reason : String) :
    ReputationProgram PeerId Unit := do
  let below ← act (.lowerScore peer amount)
  if below then banPeer peer reason else pure ()

def unbanPeer (peer : PeerId) : ReputationProgram PeerId Unit := do
  let removed ← act (.removeBan peer)
  if removed then act (.setScore peer 50) else pure ()

/-- The lock of the entry is released before `unban_peer` is called. -/
def isBanned (peer : PeerId) : ReputationProgram PeerId Bool := do
  let ban ← act (.getBan peer)
  match ban with
  | none => pure false
  | some (entry, now) =>
      if now - entry.bannedAt < entry.duration then pure true
      else do
        unbanPeer peer
        pure false

def getBanReason (peer : PeerId) : ReputationProgram PeerId (Option String) := do
  let ban ← act (.getBan peer)
  pure (ban.map fun (entry, _) => entry.reason)

def cleanupExpiredBans : ReputationProgram PeerId ℕ := do
  let now ← act .readClock
  act (.retainBans now)

def getStats : ReputationProgram PeerId ReputationStats := do
  let totalPeers ← act .countScores
  let bannedPeers ← act .countBans
  let scores ← act .scanScores
  pure {
    totalPeers
    goodPeers := scores.countP fun score => 70 ≤ score
    neutralPeers := scores.countP fun score => 30 ≤ score && score < 70
    badPeers := scores.countP fun score => score < 30
    bannedPeers }

def clearAll : ReputationProgram PeerId Unit := do
  act .clearScores
  act .clearBans

end ReputationProgram

inductive ReputationOp (PeerId : Type) where
  | getScore (peer : PeerId)
  | increaseReputation (peer : PeerId) (amount : UInt8)
  | decreaseReputation (peer : PeerId) (amount : UInt8) (reason : String)
  | banPeer (peer : PeerId) (reason : String)
  | unbanPeer (peer : PeerId)
  | isBanned (peer : PeerId)
  | getBanReason (peer : PeerId)
  | cleanupExpiredBans
  | getStats
  | clearAll
  deriving DecidableEq

def ReputationOp.program : ReputationOp PeerId → ReputationProgram PeerId ReputationResult
  | .getScore peer => do return .score (← ReputationProgram.getScore peer)
  | .increaseReputation peer amount => do
      ReputationProgram.increaseReputation peer amount
      return .done
  | .decreaseReputation peer amount reason => do
      ReputationProgram.decreaseReputation peer amount reason
      return .done
  | .banPeer peer reason => do
      ReputationProgram.banPeer peer reason
      return .done
  | .unbanPeer peer => do
      ReputationProgram.unbanPeer peer
      return .done
  | .isBanned peer => do return .banned (← ReputationProgram.isBanned peer)
  | .getBanReason peer => do return .reason (← ReputationProgram.getBanReason peer)
  | .cleanupExpiredBans => do return .removed (← ReputationProgram.cleanupExpiredBans)
  | .getStats => do return .stats (← ReputationProgram.getStats)
  | .clearAll => do
      ReputationProgram.clearAll
      return .done

def sharedReputation (PeerId : Type) [DecidableEq PeerId] (checks : OverflowChecks) :
    SharedObject (SharedReputation PeerId) (ActReadings PeerId) Duration (ReputationOp PeerId)
      ReputationResult (ReputationAct PeerId) ReputationAct.Answer where
  perform := fun action readings s => action.perform checks readings s
  program := ReputationOp.program
  elapse := fun duration s => { s with now := s.now + duration }

abbrev ReputationThread (PeerId : Type) : Type :=
  Thread (SharedReputation PeerId) (ReputationOp PeerId) ReputationResult (ReputationAct PeerId)
    ReputationAct.Answer

abbrev ConcurrentReputation (PeerId Caller : Type) : Type :=
  Concurrent (SharedReputation PeerId) Caller (ReputationOp PeerId) ReputationResult
    (ReputationAct PeerId) ReputationAct.Answer

abbrev ConcurrentReputationCall (PeerId Caller : Type) : Type :=
  Call (ConcurrentReputation PeerId Caller)
    (ConcurrentEvent (ActReadings PeerId) Duration Caller (ReputationOp PeerId))
    (Progress ReputationResult)

/-- Before the first call, for a reputation that has just been made. -/
def ConcurrentReputation.new {Caller : Type} (decayRate banThreshold : UInt8)
    (banDuration : Duration) (now : Instant) : ConcurrentReputation PeerId Caller :=
  .start ⟨.withConfig decayRate banThreshold banDuration, now⟩

end Security

end SilverNetwork
