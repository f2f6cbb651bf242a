import SilverNetwork.Foundations.HashMap
import SilverNetwork.Foundations.Machine
import SilverNetwork.Foundations.Overflow
import SilverNetwork.Model.Error
import SilverNetwork.Model.Platform

/-! The rate limiter and the reputation of peers, as a single caller sees them. Each clock
reading is an argument; a counter that panics by overflow is `none`. -/

namespace SilverNetwork

namespace Security

variable {PeerId : Type} [DecidableEq PeerId]

/-! ## The rate limiter -/

structure RateLimiter (PeerId : Type) where
  rateLimit : UInt32
  window : Duration
  peerMessages : HashMap PeerId (List Instant)

namespace RateLimiter

def withWindow (rateLimit : UInt32) (window : Duration) : RateLimiter PeerId where
  rateLimit := rateLimit
  window := window
  peerMessages := ∅

def new (rateLimit : UInt32) : RateLimiter PeerId := withWindow rateLimit 1_000_000_000

/-- The queue of the peer's messages, made when there is none. -/
def entry (peer : PeerId) (l : RateLimiter PeerId) : List Instant :=
  (l.peerMessages.lookup peer).getD []

def checkRateLimit [ToString PeerId] (peer : PeerId) (now : Instant) (l : RateLimiter PeerId) :
    Except NetworkError Unit × RateLimiter PeerId :=
  -- the messages at the front that have left the window go, whatever the answer
  let entry := (l.entry peer).dropWhile fun front => decide (l.window < now - front)
  if l.rateLimit.toNat ≤ entry.length then
    (.error (.rateLimitExceeded (toString peer)),
      { l with peerMessages := l.peerMessages.insert peer entry })
  else (.ok (), { l with peerMessages := l.peerMessages.insert peer (entry ++ [now]) })

def getMessageCount (peer : PeerId) (l : RateLimiter PeerId) : ℕ :=
  ((l.peerMessages.lookup peer).map List.length).getD 0

def clearPeer (peer : PeerId) (l : RateLimiter PeerId) : RateLimiter PeerId :=
  { l with peerMessages := l.peerMessages.erase peer }

def clearAll (l : RateLimiter PeerId) : RateLimiter PeerId := { l with peerMessages := ∅ }

end RateLimiter

inductive RateLimiterEvent (PeerId : Type) where
  | checkRateLimit (peer : PeerId) (now : Instant)
  | clearPeer (peer : PeerId)
  | clearAll

inductive RateLimiterResult where
  | checked (result : Except NetworkError Unit)
  | cleared

def rateLimiterStep [ToString PeerId] (l : RateLimiter PeerId) :
    RateLimiterEvent PeerId → Option (RateLimiterResult × RateLimiter PeerId)
  | .checkRateLimit peer now => some ((l.checkRateLimit peer now).map .checked id)
  | .clearPeer peer => some (.cleared, l.clearPeer peer)
  | .clearAll => some (.cleared, l.clearAll)

def rateLimiterMachine (PeerId : Type) [DecidableEq PeerId] [ToString PeerId] :
    Machine (RateLimiter PeerId) (RateLimiterEvent PeerId) RateLimiterResult where
  step := rateLimiterStep

abbrev RateLimiterCall (PeerId : Type) : Type :=
  Call (RateLimiter PeerId) (RateLimiterEvent PeerId) RateLimiterResult

/-! ## The reputation of peers -/

structure ReputationScore where
  score : UInt8
  lastUpdate : Instant
  goodCount : UInt64
  badCount : UInt64
  deriving DecidableEq

structure BlocklistEntry where
  reason : String
  bannedAt : Instant
  duration : Duration
  deriving DecidableEq

structure PeerReputation (PeerId : Type) where
  scores : HashMap PeerId ReputationScore
  blocklist : HashMap PeerId BlocklistEntry
  decayRate : UInt8
  banThreshold : UInt8
  banDuration : Duration

/-- The readings of a call that makes an entry where there is none, reads it and updates it. -/
structure UpdateReadings where
  createdAt : Instant
  readAt : Instant
  updatedAt : Instant

namespace PeerReputation

def withConfig (decayRate banThreshold : UInt8) (banDuration : Duration) :
    PeerReputation PeerId where
  scores := ∅
  blocklist := ∅
  decayRate := decayRate
  banThreshold := banThreshold
  banDuration := banDuration

def new : PeerReputation PeerId := withConfig 1 10 3_600_000_000_000

/-- `hours as u8` keeps the low eight bits. -/
def applyDecay (decayRate : UInt8) (now : Instant) (score : ReputationScore) : UInt8 :=
  let elapsed := now - score.lastUpdate
  let hours := elapsed / 1_000_000_000 / 3600
  let decay := Saturating.mul (UInt8.ofNat hours) decayRate
  if 50 < score.score then max (Saturating.sub score.score decay) 50
  else min (Saturating.add score.score decay) 50

def getScore (peer : PeerId) (now : Instant) (r : PeerReputation PeerId) : UInt8 :=
  match r.scores.lookup peer with
  | none => 50
  | some score => applyDecay r.decayRate now score

/-- The peer's score, a neutral one where there is none. -/
def scoreEntry (peer : PeerId) (createdAt : Instant) (r : PeerReputation PeerId) :
    ReputationScore :=
  (r.scores.lookup peer).getD ⟨50, createdAt, 0, 0⟩

def increaseReputation (checks : OverflowChecks) (peer : PeerId) (amount : UInt8)
    (readings : UpdateReadings) (r : PeerReputation PeerId) : Option (PeerReputation PeerId) := do
  let entry := r.scoreEntry peer readings.createdAt
  let current := applyDecay r.decayRate readings.readAt entry
  let goodCount ← checks.add entry.goodCount 1
  let entry := { entry with
    score := min (Saturating.add current amount) 100, lastUpdate := readings.updatedAt, goodCount }
  some { r with scores := r.scores.insert peer entry }

def banPeer (peer : PeerId) (reason : String) (bannedAt createdAt updatedAt : Instant)
    (r : PeerReputation PeerId) : PeerReputation PeerId :=
  let entry : BlocklistEntry := { reason, bannedAt, duration := r.banDuration }
  let score := { r.scoreEntry peer createdAt with score := 0, lastUpdate := updatedAt }
  { r with blocklist := r.blocklist.insert peer entry, scores := r.scores.insert peer score }

/-- The readings of a call that may ban the peer after updating its score. -/
structure PenaltyReadings extends UpdateReadings where
  bannedAt : Instant
  resetAt : Instant

def decreaseReputation (checks : OverflowChecks) (peer : PeerId) (amount : UInt8)
    (reason : String) (readings : PenaltyReadings) (r : PeerReputation PeerId) :
    Option (PeerReputation PeerId) := do
  let entry := r.scoreEntry peer readings.createdAt
  let current := applyDecay r.decayRate readings.readAt entry
  let badCount ← checks.add entry.badCount 1
  let entry := { entry with
    score := Saturating.sub current amount, lastUpdate := readings.updatedAt, badCount }
  let r := { r with scores := r.scores.insert peer entry }
  -- the score exists by now, so that `ban_peer` never makes one
  if entry.score < r.banThreshold then
    some (r.banPeer peer reason readings.bannedAt readings.bannedAt readings.resetAt)
  else some r

def unbanPeer (peer : PeerId) (createdAt updatedAt : Instant) (r : PeerReputation PeerId) :
    PeerReputation PeerId :=
  if peer ∈ r.blocklist then
    let score := { r.scoreEntry peer createdAt with score := 50, lastUpdate := updatedAt }
    { r with blocklist := r.blocklist.erase peer, scores := r.scores.insert peer score }
  else r

/-- An expired ban is lifted by `unban_peer`. -/
def isBanned (peer : PeerId) (now createdAt updatedAt : Instant) (r : PeerReputation PeerId) :
    Bool × PeerReputation PeerId :=
  match r.blocklist.lookup peer with
  | none => (false, r)
  | some entry =>
      if now - entry.bannedAt < entry.duration then (true, r)
      else (false, r.unbanPeer peer createdAt updatedAt)

def getBanReason (peer : PeerId) (r : PeerReputation PeerId) : Option String :=
  (r.blocklist.lookup peer).map BlocklistEntry.reason

/-- The bans that have not expired, and how many have. -/
def cleanupExpiredBans (now : Instant) (r : PeerReputation PeerId) : ℕ × PeerReputation PeerId :=
  let blocklist :=
    HashMap.retain r.blocklist fun _ entry => !decide (entry.duration ≤ now - entry.bannedAt)
  (r.blocklist.len - blocklist.len, { r with blocklist })

def clearAll (r : PeerReputation PeerId) : PeerReputation PeerId :=
  { r with scores := ∅, blocklist := ∅ }

end PeerReputation

structure ReputationStats where
  totalPeers : ℕ
  goodPeers : ℕ
  neutralPeers : ℕ
  badPeers : ℕ
  bannedPeers : ℕ
  deriving DecidableEq

/-- Each score is decayed at a reading of its own. -/
def PeerReputation.getStats (readAt : PeerId → Instant) (r : PeerReputation PeerId) :
    ReputationStats :=
  let scores := r.scores.entries.map fun e => applyDecay r.decayRate (readAt e.1) e.2
  { totalPeers := r.scores.len
    goodPeers := scores.countP fun score => 70 ≤ score
    neutralPeers := scores.countP fun score => 30 ≤ score && score < 70
    badPeers := scores.countP fun score => score < 30
    bannedPeers := r.blocklist.len }

inductive ReputationEvent (PeerId : Type) where
  | getScore (peer : PeerId) (now : Instant)
  | increaseReputation (peer : PeerId) (amount : UInt8) (readings : UpdateReadings)
  | decreaseReputation (peer : PeerId) (amount : UInt8) (reason : String)
      (readings : PeerReputation.PenaltyReadings)
  | banPeer (peer : PeerId) (reason : String) (bannedAt createdAt updatedAt : Instant)
  | unbanPeer (peer : PeerId) (createdAt updatedAt : Instant)
  | isBanned (peer : PeerId) (now createdAt updatedAt : Instant)
  | getBanReason (peer : PeerId)
  | cleanupExpiredBans (now : Instant)
  | getStats (readAt : PeerId → Instant)
  | clearAll

inductive ReputationResult where
  | score (value : UInt8)
  | banned (answer : Bool)
  | reason (text : Option String)
  | removed (count : ℕ)
  | stats (stats : ReputationStats)
  | done
  deriving DecidableEq

def reputationStep (checks : OverflowChecks) (r : PeerReputation PeerId) :
    ReputationEvent PeerId → Option (ReputationResult × PeerReputation PeerId)
  | .getScore peer now => some (.score (r.getScore peer now), r)
  | .increaseReputation peer amount readings =>
      (r.increaseReputation checks peer amount readings).map fun r => (.done, r)
  | .decreaseReputation peer amount reason readings =>
      (r.decreaseReputation checks peer amount reason readings).map fun r => (.done, r)
  | .banPeer peer reason bannedAt createdAt updatedAt =>
      some (.done, r.banPeer peer reason bannedAt createdAt updatedAt)
  | .unbanPeer peer createdAt updatedAt => some (.done, r.unbanPeer peer createdAt updatedAt)
  | .isBanned peer now createdAt updatedAt =>
      some ((r.isBanned peer now createdAt updatedAt).map .banned id)
  | .getBanReason peer => some (.reason (r.getBanReason peer), r)
  | .cleanupExpiredBans now => some ((r.cleanupExpiredBans now).map .removed id)
  | .getStats readAt => some (.stats (r.getStats readAt), r)
  | .clearAll => some (.done, r.clearAll)

def reputationMachine (PeerId : Type) [DecidableEq PeerId] (checks : OverflowChecks) :
    Machine (PeerReputation PeerId) (ReputationEvent PeerId) ReputationResult where
  step := reputationStep checks

abbrev ReputationCall (PeerId : Type) : Type :=
  Call (PeerReputation PeerId) (ReputationEvent PeerId) ReputationResult

end Security

end SilverNetwork
