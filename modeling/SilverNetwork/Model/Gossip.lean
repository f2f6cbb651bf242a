import Mathlib.Data.List.MinMax
import Mathlib.Data.List.Sort
import SilverNetwork.Foundations.HashMap
import SilverNetwork.Foundations.Machine
import SilverNetwork.Foundations.Mutex
import SilverNetwork.Foundations.Overflow
import SilverNetwork.Model.Error
import SilverNetwork.Model.Message
import SilverNetwork.Model.Platform

/-! The gossip protocol: topics, the deduplication cache and the statistics. As in the
synchronization model, clock readings and traversal orders are arguments, and an operation
that panics is `none`. -/

namespace SilverNetwork

/-- The identifier that `libp2p` gives a message, a byte string of its own. -/
structure MessageId where
  bytes : Bytes
  deriving DecidableEq

def MessageId.new (value : Bytes) : MessageId := ⟨value⟩

namespace Topics

def transactions : String := "silverbitcoin/transactions/1.0.0"

def batches : String := "silverbitcoin/batches/1.0.0"

def workPackages : String := "silverbitcoin/work-packages/1.0.0"

def minerShares : String := "silverbitcoin/miner-shares/1.0.0"

end Topics

structure TopicInfo where
  messagesSent : UInt64
  messagesReceived : UInt64
  lastActivity : Instant

structure CachedMessage where
  id : MessageId
  data : Bytes
  cachedAt : Instant
  seenCount : UInt32

structure GossipStats where
  totalSent : UInt64
  totalReceived : UInt64
  totalDeduplicated : UInt64
  totalBytesSent : UInt64
  totalBytesReceived : UInt64
  deriving DecidableEq

def GossipStats.default : GossipStats := ⟨0, 0, 0, 0, 0⟩

abbrev MessageCache : Type := HashMap MessageId CachedMessage

/-- The order in which one traversal of the cache visits its entries. -/
abbrev CacheOrder : Type := Enumeration (Sigma fun _ : MessageId => CachedMessage)

structure GossipProtocol where
  topics : HashMap String TopicInfo
  messageCache : Mutex MessageCache
  maxCacheSize : ℕ
  cacheTtl : Duration
  stats : Mutex GossipStats

/-- 10 MiB, the largest message that `prepare_message` lets through. -/
def maxMessageSize : ℕ := 10 * 1024 * 1024

namespace GossipStats

def countSent (checks : OverflowChecks) (size : ℕ) (stats : GossipStats) :
    Option GossipStats := do
  let totalSent ← checks.add stats.totalSent 1
  let totalBytesSent ← checks.add stats.totalBytesSent (UInt64.ofNat size)
  pure { stats with totalSent, totalBytesSent }

def countReceived (checks : OverflowChecks) (size : ℕ) (stats : GossipStats) :
    Option GossipStats := do
  let totalReceived ← checks.add stats.totalReceived 1
  let totalBytesReceived ← checks.add stats.totalBytesReceived (UInt64.ofNat size)
  pure { stats with totalReceived, totalBytesReceived }

def countDeduplicated (checks : OverflowChecks) (stats : GossipStats) : Option GossipStats := do
  let totalDeduplicated ← checks.add stats.totalDeduplicated 1
  pure { stats with totalDeduplicated }

end GossipStats

namespace GossipProtocol

variable {P : Payloads}

def withConfig (maxCacheSize : ℕ) (cacheTtl : Duration) : GossipProtocol where
  topics := ∅
  messageCache := .new ∅
  maxCacheSize := maxCacheSize
  cacheTtl := cacheTtl
  stats := .new .default

def new : GossipProtocol := withConfig 10_000 120_000_000_000

def notSubscribed (topic : String) : NetworkError :=
  .invalidMessage s!"Not subscribed to topic: {topic}"

def subscribe (topic : String) (now : Instant) (g : GossipProtocol) :
    Except NetworkError Unit × GossipProtocol :=
  if topic ∈ g.topics then (.ok (), g)
  else (.ok (), { g with topics := g.topics.insert topic ⟨0, 0, now⟩ })

def unsubscribe (topic : String) (g : GossipProtocol) :
    Except NetworkError Unit × GossipProtocol :=
  if topic ∈ g.topics then (.ok (), { g with topics := g.topics.erase topic })
  else (.error (notSubscribed topic), g)

def prepareMessage (checks : OverflowChecks) (topic : String) (message : NetworkMessage P)
    (now : Instant) (g : GossipProtocol) :
    Option (Except NetworkError Bytes × GossipProtocol) :=
  match g.topics.lookup topic with
  | none => some (.error (notSubscribed topic), g)
  | some info =>
      match message.toBytes with
      | .error e => some (.error (.serialization (P.errorText e)), g)
      | .ok data =>
          if maxMessageSize < data.length then
            some (.error (.messageTooLarge data.length maxMessageSize), g)
          else do
            let messagesSent ← checks.add info.messagesSent 1
            let stats ← g.stats.update (GossipStats.countSent checks data.length)
            let info := { info with messagesSent, lastActivity := now }
            some (.ok data, { g with topics := g.topics.insert topic info, stats })

/-! ## The cache -/

/-- The entries younger than the time to live and, if these still fill the cache, without
the oldest tenth of its capacity. -/
def evict (maxCacheSize : ℕ) (cacheTtl : Duration) (now : Instant) (order : CacheOrder)
    (cache : MessageCache) : MessageCache :=
  let young := HashMap.retain cache fun _ cached => decide (now - cached.cachedAt < cacheTtl)
  if maxCacheSize ≤ young.len then
    let byAge := (order.arrange young.entries).insertionSort fun a b => a.2.cachedAt ≤ b.2.cachedAt
    ((byAge.take (maxCacheSize / 10)).map Sigma.fst).foldl (fun m id => m.erase id) young
  else young

def evictOldMessages (now : Instant) (order : CacheOrder) (g : GossipProtocol) :
    GossipProtocol :=
  match g.messageCache.lock with
  | none => g
  | some cache =>
      { g with messageCache :=
          { g.messageCache with value := evict g.maxCacheSize g.cacheTtl now order cache } }

/-- The clock readings and the traversal order that one received message meets. -/
structure ReceiveReadings where
  activityAt : Instant
  evictedAt : Instant
  cachedAt : Instant
  order : CacheOrder

def cacheMessage (messageId : MessageId) (data : Bytes) (readings : ReceiveReadings)
    (g : GossipProtocol) : GossipProtocol :=
  let needsEviction :=
    match g.messageCache.lock with
    | none => false
    | some cache => decide (g.maxCacheSize ≤ cache.len)
  let g := if needsEviction then g.evictOldMessages readings.evictedAt readings.order else g
  match g.messageCache.lock with
  | none => g
  | some cache =>
      let cached : CachedMessage :=
        { id := messageId, data, cachedAt := readings.cachedAt, seenCount := 1 }
      { g with messageCache :=
          { g.messageCache with value := cache.insert messageId cached } }

/-- The cached message with the given identifier, if the cache can be locked. -/
def findCached (messageId : MessageId) (g : GossipProtocol) : Option CachedMessage :=
  g.messageCache.lock.bind fun cache => cache.lookup messageId

def countTopicReceived (checks : OverflowChecks) (topic : String) (now : Instant)
    (topics : HashMap String TopicInfo) : Option (HashMap String TopicInfo) :=
  match topics.lookup topic with
  | none => some topics
  | some info => do
      let messagesReceived ← checks.add info.messagesReceived 1
      some (topics.insert topic { info with messagesReceived, lastActivity := now })

def handleReceivedMessage (checks : OverflowChecks) (messageId : MessageId) (topic : String)
    (data : Bytes) (readings : ReceiveReadings) (g : GossipProtocol) :
    Option (Except NetworkError (Option (NetworkMessage P)) × GossipProtocol) :=
  match g.findCached messageId with
  | some cached => do
      let seenCount ← checks.add32 cached.seenCount 1
      let stats ← g.stats.update (GossipStats.countDeduplicated checks)
      let cache := g.messageCache.value.insert messageId { cached with seenCount }
      some (.ok none, { g with messageCache := { g.messageCache with value := cache }, stats })
  | none => do
      let topics ← countTopicReceived checks topic readings.activityAt g.topics
      let stats ← g.stats.update (GossipStats.countReceived checks data.length)
      let g := cacheMessage messageId data readings { g with topics, stats }
      match NetworkMessage.fromBytes data with
      | .error e =>
          some (.error (.deserialization ("Failed to deserialize message: " ++ P.errorText e)), g)
      | .ok message => some (.ok (some message), g)

def clearCache (g : GossipProtocol) : GossipProtocol :=
  match g.messageCache.lock with
  | none => g
  | some _ => { g with messageCache := { g.messageCache with value := ∅ } }

def cacheSize (g : GossipProtocol) : ℕ :=
  match g.messageCache.lock with
  | none => 0
  | some cache => cache.len

/-! ## Broadcast -/

def broadcastTopic : MessageType → Option String
  | .transaction => some Topics.transactions
  | .batch => some Topics.batches
  | .workPackage => some Topics.workPackages
  | .minerShare => some Topics.minerShares
  | _ => none

/-- The cache without its oldest entry, the first of these in the order of the traversal. -/
def dropOldest (order : CacheOrder) (cache : MessageCache) : MessageCache :=
  match (order.arrange cache.entries).argmin (fun e => e.2.cachedAt) with
  | none => cache
  | some oldest => cache.erase oldest.1

/-- The subscription is checked twice, with two texts, before the cache is locked. -/
def broadcast (checks : OverflowChecks) (messageType : MessageType) (data : Bytes)
    (cachedAt : Instant) (order : CacheOrder) (g : GossipProtocol) :
    Option (Except NetworkError Unit × GossipProtocol) :=
  match broadcastTopic messageType with
  | none =>
      some (.error (.invalidMessage
        ("Unsupported message type for broadcast: " ++ messageType.debug)), g)
  | some topic =>
      if topic ∉ g.topics then some (.error (notSubscribed topic), g)
      else if topic ∉ g.topics then
        some (.error (.invalidMessage s!"Topic {topic} not subscribed"), g)
      else
        let messageId := MessageId.new data
        match g.messageCache.lock with
        | none => some (.error (.invalidMessage "Failed to acquire cache lock"), g)
        | some cache =>
            if messageId ∈ cache then some (.ok (), g)
            else
              let room := if g.maxCacheSize ≤ cache.len then dropOldest order cache else cache
              let cached : CachedMessage := { id := messageId, data, cachedAt, seenCount := 1 }
              let g := { g with messageCache :=
                { g.messageCache with value := room.insert messageId cached } }
              match g.stats.lock with
              | none => some (.error (.invalidMessage "Failed to acquire stats lock"), g)
              | some stats => do
                  let stats ← stats.countSent checks data.length
                  some (.ok (), { g with stats := { g.stats with value := stats } })

end GossipProtocol

/-! ## The machine -/

inductive GossipEvent (P : Payloads) where
  | subscribe (topic : String) (now : Instant)
  | unsubscribe (topic : String)
  | prepareMessage (topic : String) (message : NetworkMessage P) (now : Instant)
  | handleReceivedMessage (messageId : MessageId) (topic : String) (data : Bytes)
      (readings : GossipProtocol.ReceiveReadings)
  | clearCache
  | broadcast (messageType : MessageType) (data : Bytes) (cachedAt : Instant)
      (order : CacheOrder)

inductive GossipResult (P : Payloads) where
  | finished (result : Except NetworkError Unit)
  | prepared (result : Except NetworkError Bytes)
  | received (result : Except NetworkError (Option (NetworkMessage P)))
  | cleared

variable {P : Payloads}

def gossipStep (checks : OverflowChecks) (g : GossipProtocol) :
    GossipEvent P → Option (GossipResult P × GossipProtocol)
  | .subscribe topic now => some ((g.subscribe topic now).map .finished id)
  | .unsubscribe topic => some ((g.unsubscribe topic).map .finished id)
  | .prepareMessage topic message now =>
      (g.prepareMessage checks topic message now).map (Prod.map .prepared id)
  | .handleReceivedMessage messageId topic data readings =>
      (g.handleReceivedMessage checks messageId topic data readings).map (Prod.map .received id)
  | .clearCache => some (.cleared, g.clearCache)
  | .broadcast messageType data cachedAt order =>
      (g.broadcast checks messageType data cachedAt order).map (Prod.map .finished id)

def gossipMachine (P : Payloads) (checks : OverflowChecks) :
    Machine GossipProtocol (GossipEvent P) (GossipResult P) where
  step := gossipStep checks

abbrev GossipCall (P : Payloads) : Type :=
  Call GossipProtocol (GossipEvent P) (GossipResult P)

end SilverNetwork
