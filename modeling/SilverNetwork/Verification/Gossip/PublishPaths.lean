import SilverNetwork.Verification.Gossip.Semantics

/-! The two ways to publish a message, side by side. `broadcast` has no limit on the size, counts
nothing for the topic, and has already changed the cache when it finds the statistics poisoned. -/

namespace SilverNetwork

open GossipProtocol

variable {P : Payloads} {checks : OverflowChecks} {g : GossipProtocol} {topic : String}
  {message : NetworkMessage P} {data : Bytes} {now cachedAt : Instant} {order : CacheOrder}

namespace GossipProtocol

/-- The two paths refuse the same messages, count the same for the others, and a refusal leaves
everything as it is. -/
structure SameRules (checks : OverflowChecks) (topic : String) (message : NetworkMessage P)
    (data : Bytes) (now cachedAt : Instant) (order : CacheOrder) (g : GossipProtocol) : Prop where
  succeeds_iff : (∃ g', g.broadcast checks message.messageType data cachedAt order =
      some (.ok (), g')) ↔
    ∃ prepared g', g.prepareMessage checks topic message now = some (.ok prepared, g')
  counts : ∀ prepared g₁ g₂, g.broadcast checks message.messageType data cachedAt order =
      some (.ok (), g₁) → g.prepareMessage checks topic message now = some (.ok prepared, g₂) →
    g₁.stats.value.totalSent = g₂.stats.value.totalSent ∧
    g₁.stats.value.totalBytesSent = g₂.stats.value.totalBytesSent ∧
    (g₁.topics.lookup topic).map TopicInfo.messagesSent =
      (g₂.topics.lookup topic).map TopicInfo.messagesSent
  broadcast_refuses : ∀ e g', g.broadcast checks message.messageType data cachedAt order =
      some (.error e, g') →
    g'.topics = g.topics ∧ g'.messageCache = g.messageCache ∧ g'.stats = g.stats
  prepare_refuses : ∀ e g', g.prepareMessage checks topic message now = some (.error e, g') →
    g'.topics = g.topics ∧ g'.messageCache = g.messageCache ∧ g'.stats = g.stats

/-- `prepare_message` lets no message of the size through: it is too large, or a counter is full. -/
def Unpreparable (checks : OverflowChecks) (topic : String) (size : ℕ) (g : GossipProtocol) :
    Prop :=
  maxMessageSize < size ∨
    (∃ info, g.topics.lookup topic = some info ∧ checks.add info.messagesSent 1 = none) ∨
    g.stats.poisoned = false ∧ g.stats.value.countSent checks size = none

/-- Neither path publishes. -/
def NeitherPublishes (checks : OverflowChecks) (topic : String) (size : ℕ) (g : GossipProtocol) :
    Prop :=
  topic ∉ g.topics ∨
    g.messageCache.poisoned = true ∧ g.Unpreparable checks topic size ∨
    g.Unpoisoned ∧ g.stats.value.countSent checks size = none

/-! ## Each path -/

theorem prepareMessage_of_unsubscribed (hunsubscribed : topic ∉ g.topics) :
    g.prepareMessage checks topic message now = some (.error (notSubscribed topic), g) := by
  rw [prepareMessage, AList.lookup_eq_none.mpr hunsubscribed]

theorem broadcast_of_unsubscribed (htopic : broadcastTopic message.messageType = some topic)
    (hunsubscribed : topic ∉ g.topics) :
    g.broadcast checks message.messageType data cachedAt order =
      some (.error (notSubscribed topic), g) := by
  simp [broadcast, htopic, hunsubscribed]

theorem broadcast_of_poisoned (htopic : broadcastTopic message.messageType = some topic)
    (hsubscribed : topic ∈ g.topics) (hpoisoned : g.messageCache.poisoned = true) :
    g.broadcast checks message.messageType data cachedAt order =
      some (.error (.invalidMessage "Failed to acquire cache lock"), g) := by
  simp [broadcast, htopic, hsubscribed, Mutex.lock, hpoisoned]

/-- The protocol with the broadcast data in its cache. -/
def withBroadcast (data : Bytes) (cachedAt : Instant) (order : CacheOrder) (g : GossipProtocol) :
    GossipProtocol :=
  g.withCache ((g.broadcastRoom order).insert (.new data)
    { id := .new data, data, cachedAt, seenCount := 1 })

theorem broadcast_of_uncached (checks : OverflowChecks) (cachedAt : Instant) (order : CacheOrder)
    (htopic : broadcastTopic message.messageType = some topic)
    (hsubscribed : topic ∈ g.topics) (hcache : g.messageCache.poisoned = false)
    (hnew : MessageId.new data ∉ g.messageCache.value) :
    g.broadcast checks message.messageType data cachedAt order =
      match g.stats.lock with
      | none => some (.error (.invalidMessage "Failed to acquire stats lock"),
          g.withBroadcast data cachedAt order)
      | some stats => (stats.countSent checks data.length).map fun stats =>
          (.ok (), (g.withBroadcast data cachedAt order).withStats stats) := by
  have hlock : g.messageCache.lock = some g.messageCache.value := by simp [Mutex.lock, hcache]
  simp only [broadcast, htopic, hsubscribed, hlock, hnew, not_true_eq_false, if_false]
  cases g.stats.lock with
  | none => rfl
  | some stats =>
      cases hcount : stats.countSent checks data.length with
      | none => simp [hcount]
      | some stats =>
          simp only [hcount, Option.bind_eq_bind, Option.bind_some, Option.map_some]
          rfl

theorem prepareMessage_of_unpreparable (now : Instant) (hdata : message.toBytes = .ok data)
    (hunpreparable : g.Unpreparable checks topic data.length) :
    (∃ e, g.prepareMessage checks topic message now = some (.error e, g)) ∨
      g.prepareMessage checks topic message now = none := by
  cases hinfo : g.topics.lookup topic with
  | none => exact .inl ⟨_, by rw [prepareMessage, hinfo]⟩
  | some info =>
      by_cases hlarge : maxMessageSize < data.length
      · refine .inl ⟨.messageTooLarge data.length maxMessageSize, ?_⟩
        simp only [prepareMessage, hinfo, hdata, hlarge, if_true]
      · right
        rcases hunpreparable with hlimit | ⟨info', hinfo', hfull⟩ | ⟨hstats, hfull⟩
        · exact absurd hlimit hlarge
        · obtain rfl := Option.some.inj (hinfo.symm.trans hinfo')
          simp [prepareMessage, hinfo, hdata, hlarge, hfull]
        · have hupdate : g.stats.update (GossipStats.countSent checks data.length) = none := by
            simp [Mutex.update, Mutex.lock, hstats, hfull]
          simp [prepareMessage, hinfo, hdata, hlarge, hupdate]

theorem prepareMessage_of_preparable {info : TopicInfo} (now : Instant)
    (hdata : message.toBytes = .ok data) (hinfo : g.topics.lookup topic = some info)
    (hpreparable : ¬ g.Unpreparable checks topic data.length) :
    ∃ messagesSent stats, checks.add info.messagesSent 1 = some messagesSent ∧
      g.prepareMessage checks topic message now = some (.ok data,
        { g with
          topics := g.topics.insert topic { info with messagesSent, lastActivity := now }
          stats }) := by
  simp only [Unpreparable, not_or] at hpreparable
  obtain ⟨hsmall, hroom, hstats⟩ := hpreparable
  obtain ⟨messagesSent, hsent⟩ :
      ∃ messagesSent, checks.add info.messagesSent 1 = some messagesSent :=
    Option.ne_none_iff_exists'.mp fun hfull => hroom ⟨info, hinfo, hfull⟩
  obtain ⟨stats, hupdate⟩ :
      ∃ stats, g.stats.update (GossipStats.countSent checks data.length) = some stats := by
    unfold Mutex.update Mutex.lock
    cases hpoisoned : g.stats.poisoned with
    | true => exact ⟨_, rfl⟩
    | false =>
        obtain ⟨stats, hcount⟩ := Option.ne_none_iff_exists'.mp fun hfull =>
          hstats ⟨hpoisoned, hfull⟩
        exact ⟨⟨stats, false⟩, by simp [hcount]⟩
  exact ⟨messagesSent, stats, hsent, by simp [prepareMessage, hinfo, hdata, hsmall, hsent, hupdate]⟩

/-! ## Both paths -/

/-- Refusals, and panics, that leave everything as it is. -/
theorem SameRules.of_refusals
    (hbroadcast : (∃ e, g.broadcast checks message.messageType data cachedAt order =
      some (.error e, g)) ∨ g.broadcast checks message.messageType data cachedAt order = none)
    (hprepare : (∃ e, g.prepareMessage checks topic message now = some (.error e, g)) ∨
      g.prepareMessage checks topic message now = none) :
    g.SameRules checks topic message data now cachedAt order := by
  have hunpublished : ∀ g', g.broadcast checks message.messageType data cachedAt order ≠
      some (.ok (), g') := by
    intro g' hpublished
    rcases hbroadcast with ⟨e, hrefused⟩ | hpanics
    · rw [hrefused] at hpublished
      cases hpublished
    · rw [hpanics] at hpublished
      cases hpublished
  constructor
  case succeeds_iff =>
    refine iff_of_false (fun ⟨g', hpublished⟩ => hunpublished g' hpublished) ?_
    rintro ⟨prepared, g', hprepared⟩
    rcases hprepare with ⟨e, hrefused⟩ | hpanics
    · rw [hrefused] at hprepared
      cases hprepared
    · rw [hpanics] at hprepared
      cases hprepared
  case counts => exact fun _ g₁ _ hpublished => absurd hpublished (hunpublished g₁)
  case broadcast_refuses =>
    intro e g' hrefused
    rcases hbroadcast with ⟨e', hrefused'⟩ | hpanics
    · obtain ⟨-, rfl⟩ := Prod.mk.inj (Option.some.inj (hrefused'.symm.trans hrefused))
      exact ⟨rfl, rfl, rfl⟩
    · rw [hpanics] at hrefused
      cases hrefused
  case prepare_refuses =>
    intro e g' hrefused
    rcases hprepare with ⟨e', hrefused'⟩ | hpanics
    · obtain ⟨-, rfl⟩ := Prod.mk.inj (Option.some.inj (hrefused'.symm.trans hrefused))
      exact ⟨rfl, rfl, rfl⟩
    · rw [hpanics] at hrefused
      cases hrefused

theorem same_rules_of_neither (hdata : message.toBytes = .ok data)
    (htopic : broadcastTopic message.messageType = some topic)
    (hnew : MessageId.new data ∉ g.messageCache.value)
    (h : g.NeitherPublishes checks topic data.length) :
    g.SameRules checks topic message data now cachedAt order := by
  by_cases hsubscribed : topic ∈ g.topics
  · rcases h with hunsubscribed | ⟨hpoisoned, hunpreparable⟩ | ⟨hfree, hfull⟩
    · exact absurd hsubscribed hunsubscribed
    · exact .of_refusals (.inl ⟨_, broadcast_of_poisoned htopic hsubscribed hpoisoned⟩)
        (prepareMessage_of_unpreparable now hdata hunpreparable)
    · refine .of_refusals (.inr ?_)
        (prepareMessage_of_unpreparable now hdata (.inr (.inr ⟨hfree.stats, hfull⟩)))
      rw [broadcast_of_uncached checks cachedAt order htopic hsubscribed hfree.cache hnew,
        hfree.lock_stats]
      simp [hfull]
  · exact .of_refusals (.inl ⟨_, broadcast_of_unsubscribed htopic hsubscribed⟩)
      (.inl ⟨_, prepareMessage_of_unsubscribed hsubscribed⟩)

/-- A message that is broadcast is not counted for its topic, be it prepared or not. -/
theorem not_same_rules_of_broadcast {stats : GossipStats} (hdata : message.toBytes = .ok data)
    (htopic : broadcastTopic message.messageType = some topic)
    (hnew : MessageId.new data ∉ g.messageCache.value) (hsubscribed : topic ∈ g.topics)
    (hfree : g.Unpoisoned) (hcount : g.stats.value.countSent checks data.length = some stats) :
    ¬ g.SameRules checks topic message data now cachedAt order := by
  intro hsame
  have hpublished := broadcast_of_uncached checks cachedAt order htopic hsubscribed hfree.cache hnew
  rw [hfree.lock_stats] at hpublished
  simp only [hcount, Option.map_some] at hpublished
  obtain ⟨prepared, g₂, hprepared⟩ := hsame.succeeds_iff.mp ⟨_, hpublished⟩
  obtain ⟨info, hinfo⟩ := Option.isSome_iff_exists.mp (AList.lookup_isSome.mpr hsubscribed)
  by_cases hpreparable : g.Unpreparable checks topic data.length
  · rcases prepareMessage_of_unpreparable now hdata hpreparable
      with ⟨e, hrefused⟩ | hpanics
    · rw [hrefused] at hprepared
      cases hprepared
    · rw [hpanics] at hprepared
      cases hprepared
  · obtain ⟨messagesSent, stats', hsent, hprepared'⟩ :=
      prepareMessage_of_preparable now hdata hinfo hpreparable
    obtain ⟨-, -, htopics⟩ := hsame.counts _ _ _ hpublished hprepared'
    obtain rfl := OverflowChecks.add_eq_some hsent
    rw [AList.lookup_insert] at htopics
    change (g.topics.lookup topic).map TopicInfo.messagesSent = _ at htopics
    rw [hinfo] at htopics
    simp at htopics

/-- What is too large to be prepared is broadcast all the same. -/
theorem oversized_broadcast {stats : GossipStats} (hdata : message.toBytes = .ok data)
    (htopic : broadcastTopic message.messageType = some topic)
    (hnew : MessageId.new data ∉ g.messageCache.value) (hsubscribed : topic ∈ g.topics)
    (hfree : g.Unpoisoned) (hcount : g.stats.value.countSent checks data.length = some stats)
    (hlarge : maxMessageSize < data.length) :
    (∃ g', g.broadcast checks message.messageType data cachedAt order = some (.ok (), g')) ∧
      g.prepareMessage checks topic message now =
        some (.error (.messageTooLarge data.length maxMessageSize), g) := by
  constructor
  · rw [broadcast_of_uncached checks cachedAt order htopic hsubscribed hfree.cache hnew,
      hfree.lock_stats]
    exact ⟨_, congrArg (Option.map _) hcount⟩
  · obtain ⟨info, hinfo⟩ := Option.isSome_iff_exists.mp (AList.lookup_isSome.mpr hsubscribed)
    simp only [prepareMessage, hinfo, hdata, hlarge, if_true]

/-- A broadcast that finds the statistics poisoned has changed the cache. -/
theorem not_same_rules_of_poisoned (htopic : broadcastTopic message.messageType = some topic)
    (hnew : MessageId.new data ∉ g.messageCache.value) (hsubscribed : topic ∈ g.topics)
    (hcache : g.messageCache.poisoned = false) (hstats : g.stats.poisoned = true) :
    ¬ g.SameRules checks topic message data now cachedAt order := by
  intro hsame
  have hrefused := broadcast_of_uncached checks cachedAt order htopic hsubscribed hcache hnew
  have hlock : g.stats.lock = none := by simp [Mutex.lock, hstats]
  rw [hlock] at hrefused
  obtain ⟨-, hcached, -⟩ := hsame.broadcast_refuses _ _ hrefused
  refine hnew ?_
  rw [← hcached]
  exact (AList.mem_insert _).mpr (.inl rfl)

/-- The rules of the two paths are the same exactly where neither publishes. -/
theorem same_rules_iff (hdata : message.toBytes = .ok data)
    (htopic : broadcastTopic message.messageType = some topic)
    (hnew : MessageId.new data ∉ g.messageCache.value) :
    g.SameRules checks topic message data now cachedAt order ↔
      g.NeitherPublishes checks topic data.length := by
  refine ⟨fun hsame => ?_, same_rules_of_neither hdata htopic hnew⟩
  by_cases hsubscribed : topic ∈ g.topics
  · cases hcache : g.messageCache.poisoned with
    | true =>
        refine .inr (.inl ⟨hcache, ?_⟩)
        by_contra hpreparable
        obtain ⟨info, hinfo⟩ := Option.isSome_iff_exists.mp (AList.lookup_isSome.mpr hsubscribed)
        obtain ⟨_, _, -, hprepared⟩ := prepareMessage_of_preparable now hdata hinfo hpreparable
        obtain ⟨g', hpublished⟩ := hsame.succeeds_iff.mpr ⟨_, _, hprepared⟩
        rw [broadcast_of_poisoned htopic hsubscribed hcache] at hpublished
        cases hpublished
    | false =>
        cases hstats : g.stats.poisoned with
        | true =>
            exact absurd hsame (not_same_rules_of_poisoned htopic hnew hsubscribed hcache hstats)
        | false =>
            refine .inr (.inr ⟨⟨hcache, hstats⟩, ?_⟩)
            by_contra hroom
            obtain ⟨stats, hcount⟩ := Option.ne_none_iff_exists'.mp hroom
            exact not_same_rules_of_broadcast hdata htopic hnew hsubscribed ⟨hcache, hstats⟩ hcount
              hsame
  · exact .inl hsubscribed

/-- A protocol that has subscribed to nothing refuses a transaction either way. -/
theorem same_rules_iff_plain :
    GossipProtocol.new.SameRules .on Topics.transactions (.transaction 7 : NetworkMessage .plain)
      [0, 0, 0, 0, 7, 0, 0, 0, 0, 0, 0, 0] 0 0 (.stored _) :=
  (same_rules_iff rfl rfl (by decide)).mpr (.inl (by decide))

/-- Both paths publish the transaction, and only one of them counts it for the topic. -/
theorem broadcast_not_counted_for_topic :
    ∃ g g₁ g₂, GossipProtocol.new.subscribe Topics.transactions 0 = (.ok (), g) ∧
      g.broadcast .on .transaction [0, 0, 0, 0, 7, 0, 0, 0, 0, 0, 0, 0] 0 (.stored _) =
        some (.ok (), g₁) ∧
      g.prepareMessage .on Topics.transactions (.transaction 7 : NetworkMessage .plain) 0 =
        some (.ok [0, 0, 0, 0, 7, 0, 0, 0, 0, 0, 0, 0], g₂) ∧
      (g₁.topics.lookup Topics.transactions).map TopicInfo.messagesSent = some 0 ∧
      (g₂.topics.lookup Topics.transactions).map TopicInfo.messagesSent = some 1 ∧
      ¬ g.SameRules .on Topics.transactions (.transaction 7 : NetworkMessage .plain)
        [0, 0, 0, 0, 7, 0, 0, 0, 0, 0, 0, 0] 0 0 (.stored _) := by
  refine ⟨_, _, _, rfl, rfl, rfl, rfl, rfl, ?_⟩
  intro hsame
  obtain ⟨-, -, htopics⟩ := hsame.counts _ _ _ rfl rfl
  exact absurd htopics (by decide)

end GossipProtocol

end SilverNetwork
