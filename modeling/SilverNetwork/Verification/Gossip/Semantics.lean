import SilverNetwork.Foundations.Eviction
import SilverNetwork.Verification.Wire.Publish

/-! Local rules of a protocol whose locks are free, one for each thing that a call can do to
the cache. Calls that only touch topics share a rule. -/

namespace SilverNetwork

open GossipProtocol

variable {P : Payloads} {checks : OverflowChecks}

namespace GossipProtocol

/-- No lock of the protocol was poisoned. -/
structure Unpoisoned (g : GossipProtocol) : Prop where
  cache : g.messageCache.poisoned = false
  stats : g.stats.poisoned = false

def withCache (cache : MessageCache) (g : GossipProtocol) : GossipProtocol :=
  { g with messageCache := { g.messageCache with value := cache } }

def withStats (stats : GossipStats) (g : GossipProtocol) : GossipProtocol :=
  { g with stats := { g.stats with value := stats } }

/-- The cache into which a received message is put. -/
def receiveRoom (now : Instant) (order : CacheOrder) (g : GossipProtocol) : MessageCache :=
  if g.maxCacheSize ≤ g.messageCache.value.len then
    evict g.maxCacheSize g.cacheTtl now order g.messageCache.value
  else g.messageCache.value

/-- The cache into which broadcast data is put. -/
def broadcastRoom (order : CacheOrder) (g : GossipProtocol) : MessageCache :=
  if g.maxCacheSize ≤ g.messageCache.value.len then dropOldest order g.messageCache.value
  else g.messageCache.value

/-- Broadcasting the data puts it into the cache: the type has a topic, which is subscribed,
and the data is not there yet. -/
def Publishes (messageType : MessageType) (data : Bytes) (g : GossipProtocol) : Prop :=
  (∃ topic, broadcastTopic messageType = some topic ∧ topic ∈ g.topics) ∧
    MessageId.new data ∉ g.messageCache.value

variable {g : GossipProtocol}

theorem Unpoisoned.lock_cache (h : g.Unpoisoned) :
    g.messageCache.lock = some g.messageCache.value := by
  simp [Mutex.lock, h.cache]

theorem Unpoisoned.lock_stats (h : g.Unpoisoned) : g.stats.lock = some g.stats.value := by
  simp [Mutex.lock, h.stats]

theorem Unpoisoned.findCached (h : g.Unpoisoned) (id : MessageId) :
    g.findCached id = g.messageCache.value.lookup id := by
  rw [GossipProtocol.findCached, h.lock_cache, Option.bind_some]

theorem Unpoisoned.cacheSize (h : g.Unpoisoned) : g.cacheSize = g.messageCache.value.len := by
  rw [GossipProtocol.cacheSize, h.lock_cache]

theorem Unpoisoned.update_stats (h : g.Unpoisoned) (body : GossipStats → Option GossipStats) :
    g.stats.update body =
      (body g.stats.value).map fun stats => { g.stats with value := stats } := by
  rw [Mutex.update, h.lock_stats]

theorem Unpoisoned.clearCache (h : g.Unpoisoned) : g.clearCache = g.withCache ∅ := by
  rw [GossipProtocol.clearCache, h.lock_cache]
  rfl

theorem Unpoisoned.cacheMessage (h : g.Unpoisoned) (id : MessageId) (data : Bytes)
    (readings : ReceiveReadings) :
    g.cacheMessage id data readings = g.withCache
      ((g.receiveRoom readings.evictedAt readings.order).insert id
        { id, data, cachedAt := readings.cachedAt, seenCount := 1 }) := by
  unfold GossipProtocol.cacheMessage receiveRoom
  by_cases hfull : g.maxCacheSize ≤ g.messageCache.value.len
  · simp [h.lock_cache, hfull, evictOldMessages, Mutex.lock_with_value h.lock_cache, withCache]
  · simp [h.lock_cache, hfull, withCache]

end GossipProtocol

/-- Calls that touch neither the cache nor the counters of received messages. -/
def GossipEvent.OnTopics : GossipEvent P → Prop
  | .subscribe _ _ | .unsubscribe _ | .prepareMessage _ _ _ => True
  | _ => False

/-- One completed call of a protocol whose locks are free. -/
inductive GossipStep (checks : OverflowChecks) (g : GossipProtocol) :
    GossipEvent P → GossipResult P → GossipProtocol → Prop where
  | onTopics (e r topics stats) (hevent : e.OnTopics)
      (hreceived : stats.totalReceived = g.stats.value.totalReceived)
      (hdeduplicated : stats.totalDeduplicated = g.stats.value.totalDeduplicated) :
      GossipStep checks g e r ({ g with topics }.withStats stats)
  | duplicate (id topic data readings cached seenCount stats)
      (hcached : g.messageCache.value.lookup id = some cached)
      (hseen : checks.add32 cached.seenCount 1 = some seenCount)
      (hstats : g.stats.value.countDeduplicated checks = some stats) :
      GossipStep checks g (.handleReceivedMessage id topic data readings) (.received (.ok none))
        ((g.withCache (g.messageCache.value.insert id { cached with seenCount })).withStats stats)
  | received (id topic data readings topics stats) (hnew : id ∉ g.messageCache.value)
      (htopics : countTopicReceived checks topic readings.activityAt g.topics = some topics)
      (hstats : g.stats.value.countReceived checks data.length = some stats) :
      GossipStep checks g (.handleReceivedMessage id topic data readings)
        (.received (answerTo P data))
        (({ g with topics }.withStats stats).withCache
          ((g.receiveRoom readings.evictedAt readings.order).insert id
            { id, data, cachedAt := readings.cachedAt, seenCount := 1 }))
  | cleared : GossipStep checks g .clearCache .cleared (g.withCache ∅)
  | unpublished (messageType data cachedAt order result)
      (hrefused : ¬ g.Publishes messageType data) :
      GossipStep checks g (.broadcast messageType data cachedAt order) (.finished result) g
  | published (messageType data cachedAt order stats) (hpublishes : g.Publishes messageType data)
      (hstats : g.stats.value.countSent checks data.length = some stats) :
      GossipStep checks g (.broadcast messageType data cachedAt order) (.finished (.ok ()))
        ((g.withCache ((g.broadcastRoom order).insert (.new data)
          { id := .new data, data, cachedAt, seenCount := 1 })).withStats stats)

variable {g g' : GossipProtocol}

theorem countSent_unrelated {stats stats' : GossipStats} {size : ℕ}
    (h : stats.countSent checks size = some stats') :
    stats'.totalReceived = stats.totalReceived ∧
      stats'.totalDeduplicated = stats.totalDeduplicated := by
  simp only [GossipStats.countSent, Option.bind_eq_bind, Option.bind_eq_some_iff] at h
  obtain ⟨_, _, _, _, heq⟩ := h
  obtain rfl := Option.some.inj heq
  exact ⟨rfl, rfl⟩

theorem prepareMessage_rule (hfree : g.Unpoisoned) {topic : String} {message : NetworkMessage P}
    {now : Instant} {result : Except NetworkError Bytes}
    (h : g.prepareMessage checks topic message now = some (result, g')) :
    GossipStep checks g (.prepareMessage topic message now) (.prepared result) g' := by
  have hsame : GossipStep checks g (.prepareMessage topic message now) (.prepared result) g :=
    .onTopics _ _ g.topics g.stats.value trivial rfl rfl
  unfold prepareMessage at h
  cases hinfo : g.topics.lookup topic with
  | none =>
      simp only [hinfo, Option.some.injEq, Prod.mk.injEq] at h
      exact h.2 ▸ hsame
  | some info =>
      cases hbytes : message.toBytes with
      | error e =>
          simp only [hinfo, hbytes, Option.some.injEq, Prod.mk.injEq] at h
          exact h.2 ▸ hsame
      | ok data =>
          simp only [hinfo, hbytes, hfree.update_stats, Option.bind_eq_bind] at h
          split at h
          · simp only [Option.some.injEq, Prod.mk.injEq] at h
            exact h.2 ▸ hsame
          · simp only [Option.bind_eq_some_iff, Option.map_eq_some_iff] at h
            obtain ⟨_, _, _, ⟨stats, hstats, rfl⟩, heq⟩ := h
            obtain ⟨rfl, rfl⟩ := Prod.mk.inj (Option.some.inj heq)
            obtain ⟨hreceived, hdeduplicated⟩ := countSent_unrelated hstats
            exact .onTopics _ _ _ stats trivial hreceived hdeduplicated

theorem handleReceivedMessage_rule (hfree : g.Unpoisoned) {id : MessageId} {topic : String}
    {data : Bytes} {readings : ReceiveReadings}
    {result : Except NetworkError (Option (NetworkMessage P))}
    (h : g.handleReceivedMessage checks id topic data readings = some (result, g')) :
    GossipStep checks g (.handleReceivedMessage id topic data readings) (.received result) g' := by
  have hanswer := handleReceivedMessage_answer h
  unfold handleReceivedMessage at h
  rw [hfree.findCached] at h hanswer
  cases hcached : g.messageCache.value.lookup id with
  | some cached =>
      simp only [hcached, hfree.update_stats, Option.bind_eq_bind, Option.bind_eq_some_iff,
        Option.map_eq_some_iff] at h
      obtain ⟨seenCount, hseen, _, ⟨stats, hstats, rfl⟩, heq⟩ := h
      obtain ⟨rfl, rfl⟩ := Prod.mk.inj (Option.some.inj heq)
      exact .duplicate id topic data readings cached seenCount stats hcached hseen hstats
  | none =>
      simp only [hcached, hfree.update_stats, Option.bind_eq_bind, Option.bind_eq_some_iff,
        Option.map_eq_some_iff] at h
      obtain ⟨topics, htopics, _, ⟨stats, hstats, rfl⟩, heq⟩ := h
      have hfree' : ({ g with topics }.withStats stats).Unpoisoned := ⟨hfree.cache, hfree.stats⟩
      have hnext : g' = ({ g with topics }.withStats stats).cacheMessage id data readings := by
        split at heq
        · exact (Prod.mk.inj (Option.some.inj heq)).2.symm
        · exact (Prod.mk.inj (Option.some.inj heq)).2.symm
      rw [hcached] at hanswer
      obtain rfl := hanswer
      rw [hnext, hfree'.cacheMessage]
      exact .received id topic data readings topics stats (AList.lookup_eq_none.mp hcached)
        htopics hstats

theorem broadcast_rule (hfree : g.Unpoisoned) {messageType : MessageType} {data : Bytes}
    {cachedAt : Instant} {order : CacheOrder} {result : Except NetworkError Unit}
    (h : g.broadcast checks messageType data cachedAt order = some (result, g')) :
    GossipStep (P := P) checks g (.broadcast messageType data cachedAt order)
      (.finished result) g' := by
  unfold broadcast at h
  cases htopic : broadcastTopic messageType with
  | none =>
      simp only [htopic, Option.some.injEq, Prod.mk.injEq] at h
      obtain ⟨rfl, rfl⟩ := h
      exact .unpublished _ _ _ _ _ (by simp [Publishes, htopic])
  | some topic =>
      by_cases hsubscribed : topic ∈ g.topics
      · by_cases hcached : MessageId.new data ∈ g.messageCache.value
        · simp only [htopic, hsubscribed, hfree.lock_cache, hcached, not_true_eq_false, if_true,
            if_false, Option.some.injEq, Prod.mk.injEq] at h
          obtain ⟨rfl, rfl⟩ := h
          exact .unpublished _ _ _ _ _ fun hpublishes => hpublishes.2 hcached
        · simp only [htopic, hsubscribed, hfree.lock_cache, hfree.lock_stats, hcached,
            not_true_eq_false, if_false, Option.bind_eq_bind, Option.bind_eq_some_iff] at h
          obtain ⟨stats, hstats, heq⟩ := h
          obtain ⟨rfl, rfl⟩ := Prod.mk.inj (Option.some.inj heq)
          exact .published _ _ _ _ stats ⟨⟨topic, htopic, hsubscribed⟩, hcached⟩ hstats
      · simp only [htopic, hsubscribed, not_false_eq_true, if_true, Option.some.injEq,
          Prod.mk.injEq] at h
        obtain ⟨rfl, rfl⟩ := h
        exact .unpublished _ _ _ _ _ (by simp [Publishes, htopic, hsubscribed])

theorem gossipStep_rule (hfree : g.Unpoisoned) {e : GossipEvent P} {r : GossipResult P}
    (h : gossipStep checks g e = some (r, g')) : GossipStep checks g e r g' := by
  cases e with
  | subscribe topic now =>
      simp only [gossipStep, subscribe] at h
      split at h
      · obtain ⟨_, rfl⟩ := Prod.mk.inj (Option.some.inj h)
        exact .onTopics _ _ g.topics g.stats.value trivial rfl rfl
      · obtain ⟨_, rfl⟩ := Prod.mk.inj (Option.some.inj h)
        exact .onTopics _ _ _ g.stats.value trivial rfl rfl
  | unsubscribe topic =>
      simp only [gossipStep, unsubscribe] at h
      split at h
      · obtain ⟨_, rfl⟩ := Prod.mk.inj (Option.some.inj h)
        exact .onTopics _ _ _ g.stats.value trivial rfl rfl
      · obtain ⟨_, rfl⟩ := Prod.mk.inj (Option.some.inj h)
        exact .onTopics _ _ g.topics g.stats.value trivial rfl rfl
  | prepareMessage topic message now =>
      obtain ⟨⟨result, next⟩, hprepared, heq⟩ := Option.map_eq_some_iff.mp h
      obtain ⟨rfl, rfl⟩ := Prod.mk.inj heq
      exact prepareMessage_rule hfree hprepared
  | handleReceivedMessage id topic data readings =>
      obtain ⟨⟨result, next⟩, hreceived, heq⟩ := Option.map_eq_some_iff.mp h
      obtain ⟨rfl, rfl⟩ := Prod.mk.inj heq
      exact handleReceivedMessage_rule hfree hreceived
  | clearCache =>
      obtain ⟨rfl, rfl⟩ := Prod.mk.inj (Option.some.inj h)
      rw [hfree.clearCache]
      exact .cleared
  | broadcast messageType data cachedAt order =>
      obtain ⟨⟨result, next⟩, hbroadcast, heq⟩ := Option.map_eq_some_iff.mp h
      obtain ⟨rfl, rfl⟩ := Prod.mk.inj heq
      exact broadcast_rule hfree hbroadcast

theorem gossipMachine_rule {c : GossipCall P} (h : (gossipMachine P checks).Makes c)
    (hfree : c.pre.Unpoisoned) : GossipStep checks c.pre c.event c.result c.post :=
  gossipStep_rule hfree h

/-! ## Duplicates are the cached messages -/

theorem answerTo_ne_none (P : Payloads) (data : Bytes) : answerTo P data ≠ .ok none := by
  unfold answerTo
  split
  · simp
  · simp

theorem received_none_iff {c : GossipCall P} (h : (gossipMachine P checks).Makes c)
    {id : MessageId} {topic : String} {data : Bytes} {readings : ReceiveReadings}
    (he : c.event = .handleReceivedMessage id topic data readings) :
    c.result = .received (.ok none) ↔ (c.pre.findCached id).isSome := by
  rw [Machine.Makes, he] at h
  obtain ⟨⟨answer, next⟩, hreceived, heq⟩ := Option.map_eq_some_iff.mp h
  have hresult : c.result = .received answer := (Prod.mk.inj heq).1.symm
  have hanswer := handleReceivedMessage_answer hreceived
  split at hanswer
  · rename_i hcached
    exact iff_of_true (by rw [hresult, hanswer]) hcached
  · rename_i hnew
    apply iff_of_false _ hnew
    rw [hresult, hanswer]
    intro hnone
    exact answerTo_ne_none P data (GossipResult.received.inj hnone)

/-! ## The configuration -/

/-- The protocol has the given configuration, and its locks are free. -/
structure Configured (maxCacheSize : ℕ) (cacheTtl : Duration) (g : GossipProtocol) : Prop where
  capacity : g.maxCacheSize = maxCacheSize
  lifetime : g.cacheTtl = cacheTtl
  unpoisoned : g.Unpoisoned

theorem configured_withConfig (maxCacheSize : ℕ) (cacheTtl : Duration) :
    Configured maxCacheSize cacheTtl (.withConfig maxCacheSize cacheTtl) :=
  ⟨rfl, rfl, rfl, rfl⟩

theorem GossipStep.configured {e : GossipEvent P} {r : GossipResult P} {maxCacheSize : ℕ}
    {cacheTtl : Duration} (h : GossipStep checks g e r g')
    (hg : Configured maxCacheSize cacheTtl g) : Configured maxCacheSize cacheTtl g' := by
  have hsame := hg.unpoisoned
  cases h with
  | onTopics => exact ⟨hg.capacity, hg.lifetime, hsame.cache, hsame.stats⟩
  | duplicate => exact ⟨hg.capacity, hg.lifetime, hsame.cache, hsame.stats⟩
  | received => exact ⟨hg.capacity, hg.lifetime, hsame.cache, hsame.stats⟩
  | cleared => exact ⟨hg.capacity, hg.lifetime, hsame.cache, hsame.stats⟩
  | unpublished => exact hg
  | published => exact ⟨hg.capacity, hg.lifetime, hsame.cache, hsame.stats⟩

theorem run_configured {maxCacheSize : ℕ} {cacheTtl : Duration} {calls : List (GossipCall P)}
    (h : (gossipMachine P checks).Run (.withConfig maxCacheSize cacheTtl) calls g) :
    Configured maxCacheSize cacheTtl g :=
  h.invariant (configured_withConfig maxCacheSize cacheTtl)
    fun _ hmakes hpre => (gossipMachine_rule hmakes hpre.unpoisoned).configured hpre

end SilverNetwork
