import SilverNetwork.Verification.Gossip.Eviction

/-! How long a message stays known. An entry leaves the cache when it has expired or when
enough newer entries have outlived it, and a newer entry was put there after it. -/

namespace SilverNetwork

open GossipProtocol Eviction

variable {P : Payloads} {checks : OverflowChecks} {g g' : GossipProtocol}

namespace GossipProtocol

instance (messageType : MessageType) (data : Bytes) (g : GossipProtocol) :
    Decidable (g.Publishes messageType data) :=
  decidable_of_iff ((broadcastTopic messageType).any (fun topic => decide (topic ∈ g.topics)) ∧
    MessageId.new data ∉ g.messageCache.value) (by simp [Publishes, Option.any_eq_true])

end GossipProtocol

namespace GossipCall

/-- The identifiers that the call puts into the cache. -/
def newlyCached (c : GossipCall P) : List MessageId :=
  c.post.messageCache.value.keys.filter (· ∉ c.pre.messageCache.value)

/-- The clock readings that the call makes, in the order in which it makes them. -/
def readings (c : GossipCall P) : List Instant :=
  match c.event with
  | .subscribe topic now => if topic ∈ c.pre.topics then [] else [now]
  | .unsubscribe _ => []
  | .prepareMessage _ _ now =>
      match c.result with
      | .prepared (.ok _) => [now]
      | _ => []
  | .handleReceivedMessage id topic _ readings =>
      if (c.pre.findCached id).isSome then []
      else (if topic ∈ c.pre.topics then [readings.activityAt] else []) ++
        (if c.pre.maxCacheSize ≤ c.pre.cacheSize then [readings.evictedAt] else []) ++
          [readings.cachedAt]
  | .clearCache => []
  | .broadcast messageType data cachedAt _ =>
      if c.pre.Publishes messageType data then [cachedAt] else []

/-- The call receives the message and does not take it for a duplicate. -/
def ReceivesAsNew (id : MessageId) (c : GossipCall P) : Prop :=
  ∃ topic data readings, c.event = .handleReceivedMessage id topic data readings ∧
    c.result ≠ .received (.ok none)

def isReceive (c : GossipCall P) : Bool :=
  match c.event with
  | .handleReceivedMessage _ _ _ _ => true
  | _ => false

end GossipCall

open GossipCall

theorem mem_newlyCached {c : GossipCall P} {id : MessageId} : id ∈ newlyCached c ↔
    id ∈ c.post.messageCache.value ∧ id ∉ c.pre.messageCache.value := by
  simp [newlyCached, AList.mem_keys]

/-! ## Stamps are readings -/

/-- Every stamp in the cache is one of the given readings. -/
def Stamped (readings : List Instant) (cache : MessageCache) : Prop :=
  ∀ id cached, cache.lookup id = some cached → cached.cachedAt ∈ readings

theorem Stamped.insert {past new : List Instant} {cache room : MessageCache}
    (h : Stamped past cache)
    (hkept : ∀ id cached, room.lookup id = some cached → cache.lookup id = some cached)
    {id : MessageId} {cached : CachedMessage} (hcached : cached.cachedAt ∈ past ++ new) :
    Stamped (past ++ new) (room.insert id cached) := by
  intro id' cached' hlookup
  rw [HashMap.lookup_insert_eq] at hlookup
  split at hlookup
  · obtain rfl := Option.some.inj hlookup
    exact hcached
  · exact List.mem_append_left _ (h id' cached' (hkept _ _ hlookup))

theorem readings_received (hfree : g.Unpoisoned) {id : MessageId} {topic : String}
    {data : Bytes} {readings : ReceiveReadings} (hnew : id ∉ g.messageCache.value)
    (r : GossipResult P) (g' : GossipProtocol) :
    GossipCall.readings ⟨g, .handleReceivedMessage id topic data readings, r, g'⟩ =
      (if topic ∈ g.topics then [readings.activityAt] else []) ++
        (if g.maxCacheSize ≤ g.messageCache.value.len then [readings.evictedAt] else []) ++
          [readings.cachedAt] := by
  have hnone : (g.findCached id).isSome = false := by
    rw [hfree.findCached, AList.lookup_eq_none.mpr hnew]
    rfl
  simp only [GossipCall.readings, hnone, hfree.cacheSize, Bool.false_eq_true, if_false]

theorem readings_published {messageType : MessageType} {data : Bytes}
    (hpublishes : g.Publishes messageType data) (cachedAt : Instant) (order : CacheOrder)
    (r : GossipResult P) (g' : GossipProtocol) :
    GossipCall.readings ⟨g, .broadcast messageType data cachedAt order, r, g'⟩ = [cachedAt] :=
  if_pos hpublishes

theorem GossipStep.stamped {e : GossipEvent P} {r : GossipResult P}
    (hstep : GossipStep checks g e r g') (hfree : g.Unpoisoned) {past : List Instant}
    (h : Stamped past g.messageCache.value) :
    Stamped (past ++ GossipCall.readings ⟨g, e, r, g'⟩) g'.messageCache.value := by
  cases hstep with
  | onTopics => exact fun id cached hlookup => List.mem_append_left _ (h id cached hlookup)
  | duplicate id topic data readings cached seenCount stats hcached =>
      exact h.insert (fun _ _ hl => hl) (List.mem_append_left _ (h id cached hcached))
  | received id topic data readings topics stats hnew =>
      apply h.insert fun _ _ hl => receiveRoom_kept hl
      rw [readings_received hfree hnew]
      simp
  | cleared =>
      intro id cached hlookup
      simp [withCache] at hlookup
  | unpublished => exact fun id cached hlookup => List.mem_append_left _ (h id cached hlookup)
  | published messageType data cachedAt order stats hpublishes =>
      apply h.insert fun _ _ hl => broadcastRoom_kept hl
      rw [readings_published hpublishes]
      simp

theorem run_stamped {maxCacheSize : ℕ} {cacheTtl : Duration} {calls : List (GossipCall P)}
    (h : (gossipMachine P checks).Run (.withConfig maxCacheSize cacheTtl) calls g) :
    Stamped (calls.flatMap GossipCall.readings) g.messageCache.value := by
  induction h with
  | start =>
      intro id cached hlookup
      simp [withConfig, Mutex.new] at hlookup
  | call c hrun hmakes ih =>
      have hfree := (run_configured hrun).unpoisoned
      have hpost := (gossipMachine_rule hmakes hfree).stamped hfree ih
      rw [List.flatMap_append, List.flatMap_singleton]
      exact hpost

/-! ## Forgetting a message -/

/-- The message has stayed in the cache since the given reading, and every other entry there
is older or is one of those cached since. -/
structure Remembered (id : MessageId) (cachedAt : Instant) (since : List MessageId)
    (cache : MessageCache) : Prop where
  kept : ∃ cached, cache.lookup id = some cached ∧ cached.cachedAt = cachedAt
  others : ∀ id' cached', cache.lookup id' = some cached' → id' ≠ id →
    cached'.cachedAt < cachedAt ∨ id' ∈ since

/-- Enough other messages were cached since, or the time to live has passed. -/
def Forgettable (maxCacheSize : ℕ) (cacheTtl : Duration) (id : MessageId) (cachedAt : Instant)
    (since : List MessageId) (readings : List Instant) : Prop :=
  maxCacheSize - max 1 (maxCacheSize / 10) ≤ (since.toFinset.erase id).card ∨
    ∃ now ∈ readings, cacheTtl ≤ now - cachedAt

variable {maxCacheSize : ℕ} {cacheTtl : Duration} {id : MessageId} {cachedAt : Instant}
  {since : List MessageId} {cache room : MessageCache}

theorem Forgettable.mono {since' : List MessageId} {readings readings' : List Instant}
    (h : Forgettable maxCacheSize cacheTtl id cachedAt since readings)
    (hsince : ∀ id ∈ since, id ∈ since') (hreadings : ∀ now ∈ readings, now ∈ readings') :
    Forgettable maxCacheSize cacheTtl id cachedAt since' readings' := by
  rcases h with hcard | ⟨now, hnow, hle⟩
  · left
    apply hcard.trans
    apply Finset.card_le_card
    apply Finset.erase_subset_erase
    intro id' hid'
    exact List.mem_toFinset.mpr (hsince id' (List.mem_toFinset.mp hid'))
  · exact Or.inr ⟨now, hreadings now hnow, hle⟩

/-- Only messages cached since can outlive it. -/
theorem Remembered.card_le (h : Remembered id cachedAt since cache) {n : ℕ}
    (houtlived : OutlivedBy CachedMessage.cachedAt n cache id) :
    n ≤ (since.toFinset.erase id).card := by
  obtain ⟨newer, hcard, cached, hcached, hnewer⟩ := houtlived
  obtain ⟨cached', hcached', rfl⟩ := h.kept
  obtain rfl := Option.some.inj (hcached.symm.trans hcached')
  apply hcard.trans
  apply Finset.card_le_card
  intro k hk
  obtain ⟨hne, w, hw, hle⟩ := hnewer k hk
  rcases h.others k w hw hne with hlt | hsince
  · exact absurd hle (Nat.not_le.mpr hlt)
  · exact Finset.mem_erase.mpr ⟨hne, List.mem_toFinset.mpr hsince⟩

theorem Remembered.mono {since' : List MessageId} (h : Remembered id cachedAt since cache)
    (hsince : ∀ id ∈ since, id ∈ since') : Remembered id cachedAt since' cache :=
  ⟨h.kept, fun id' cached' hl hne => (h.others id' cached' hl hne).imp_right (hsince id')⟩

/-- Putting another message into what is left keeps it remembered, unless it is gone. -/
theorem Remembered.insert (h : Remembered id cachedAt since cache)
    (hkept : ∀ id cached, room.lookup id = some cached → cache.lookup id = some cached)
    {id' : MessageId} (hne : id' ≠ id) (hsince : id' ∈ since) (cached' : CachedMessage)
    (hstays : ∃ cached, room.lookup id = some cached) :
    Remembered id cachedAt since (room.insert id' cached') := by
  obtain ⟨cached, hcached⟩ := hstays
  obtain ⟨cached₀, hcached₀, hat⟩ := h.kept
  obtain rfl := Option.some.inj ((hkept id cached hcached).symm.trans hcached₀)
  refine ⟨⟨cached, ?_, hat⟩, ?_⟩
  · rw [HashMap.lookup_insert_eq, if_neg (Ne.symm hne)]
    exact hcached
  · intro k w hw hk
    rw [HashMap.lookup_insert_eq] at hw
    split at hw
    · rename_i heq
      exact Or.inr (heq ▸ hsince)
    · exact h.others k w (hkept k w hw) hk

theorem Remembered.mem (h : Remembered id cachedAt since cache) : id ∈ cache := by
  obtain ⟨cached, hcached, _⟩ := h.kept
  exact HashMap.mem_iff_exists_lookup.mpr ⟨cached, hcached⟩

theorem Remembered.ne (h : Remembered id cachedAt since cache) {id' : MessageId}
    (hnew : id' ∉ cache) : id' ≠ id := fun heq => hnew (heq ▸ h.mem)

/-- A call other than a clearing keeps a message remembered or had reason to forget it. -/
theorem GossipStep.remembered {e : GossipEvent P} {r : GossipResult P}
    (hstep : GossipStep checks g e r g') (hg : Configured maxCacheSize cacheTtl g)
    (hevent : e ≠ .clearCache) (h : Remembered id cachedAt since g.messageCache.value) :
    Remembered id cachedAt (since ++ newlyCached ⟨g, e, r, g'⟩) g'.messageCache.value ∨
      Forgettable maxCacheSize cacheTtl id cachedAt since
        (GossipCall.readings ⟨g, e, r, g'⟩) := by
  have hmono : Remembered id cachedAt (since ++ newlyCached ⟨g, e, r, g'⟩)
      g.messageCache.value := h.mono fun _ => List.mem_append_left _
  obtain ⟨cached, hcached, hat⟩ := h.kept
  cases hstep with
  | onTopics => exact Or.inl hmono
  | duplicate id' topic data readings cached' seenCount stats hcached' =>
      left
      refine ⟨?_, ?_⟩
      · by_cases heq : id = id'
        · obtain rfl := heq
          obtain rfl := Option.some.inj (hcached.symm.trans hcached')
          exact ⟨_, AList.lookup_insert _, hat⟩
        · exact ⟨cached, (AList.lookup_insert_ne heq).trans hcached, hat⟩
      · intro k w hw hne
        have hlookup := (HashMap.lookup_insert_eq _ id' k _).symm.trans hw
        split at hlookup
        · rename_i heq
          obtain rfl := Option.some.inj hlookup
          exact hmono.others k cached' (heq ▸ hcached') hne
        · exact hmono.others k w hlookup hne
  | received id' topic data readings topics stats hnew =>
      have hfree := hg.unpoisoned
      cases hroom : (g.receiveRoom readings.evictedAt readings.order).lookup id with
      | some kept =>
          left
          apply hmono.insert (fun _ _ => receiveRoom_kept) (h.ne hnew) _ _ ⟨kept, hroom⟩
          exact List.mem_append_right _ (mem_newlyCached.mpr ⟨HashMap.mem_insert_self _ _ _, hnew⟩)
      | none =>
          right
          obtain ⟨hfull, hgone⟩ := receiveRoom_gone hcached hroom
          rw [readings_received hfree hnew, if_pos hfull]
          rw [hg.capacity, hg.lifetime, hat] at hgone
          rcases hgone with hexpired | houtlived
          · exact Or.inr ⟨readings.evictedAt, by simp, hexpired⟩
          · have hcard := h.card_le houtlived
            exact Or.inl (by omega)
  | cleared => exact absurd rfl hevent
  | unpublished => exact Or.inl hmono
  | published messageType data cachedAt' order stats hpublishes =>
      cases hroom : (g.broadcastRoom order).lookup id with
      | some kept =>
          left
          apply hmono.insert (fun _ _ => broadcastRoom_kept) (h.ne hpublishes.2) _ _ ⟨kept, hroom⟩
          exact List.mem_append_right _
            (mem_newlyCached.mpr ⟨HashMap.mem_insert_self _ _ _, hpublishes.2⟩)
      | none =>
          right
          have hgone := broadcastRoom_gone hcached hroom
          rw [hg.capacity] at hgone
          have hcard := h.card_le hgone
          exact Or.inl (by omega)

/-- A run without clearings keeps a message remembered or had reason to forget it. -/
theorem run_remembered {calls : List (GossipCall P)}
    (h : (gossipMachine P checks).Run g calls g') (hg : Configured maxCacheSize cacheTtl g)
    (hevents : ∀ c ∈ calls, c.event ≠ .clearCache)
    (hstart : Remembered id cachedAt [] g.messageCache.value) :
    Configured maxCacheSize cacheTtl g' ∧
      (Remembered id cachedAt (calls.flatMap newlyCached) g'.messageCache.value ∨
        Forgettable maxCacheSize cacheTtl id cachedAt (calls.flatMap newlyCached)
          (calls.flatMap GossipCall.readings)) := by
  induction h with
  | start => exact ⟨hg, Or.inl hstart⟩
  | @call calls c _ hmakes ih =>
      obtain ⟨hpre, hpast⟩ := ih fun c' hc' => hevents c' (List.mem_append_left _ hc')
      have hstep := gossipMachine_rule hmakes hpre.unpoisoned
      refine ⟨hstep.configured hpre, ?_⟩
      simp only [List.flatMap_append, List.flatMap_singleton]
      rcases hpast with hremembered | hforgettable
      · have hkeeps := hevents c List.mem_concat_self
        rcases hstep.remembered hpre hkeeps hremembered with hkept | hforgettable
        · exact Or.inl hkept
        · exact Or.inr (hforgettable.mono (fun _ => List.mem_append_left _)
            fun _ => List.mem_append_right _)
      · exact Or.inr (hforgettable.mono (fun _ => List.mem_append_left _)
          fun _ => List.mem_append_left _)

/-- A message received as new is remembered, once every stamp in the cache is older. -/
theorem GossipStep.remembers {topic : String} {data : Bytes} {readings : ReceiveReadings}
    {r : GossipResult P}
    (hstep : GossipStep checks g (.handleReceivedMessage id topic data readings) r g')
    (hnew : id ∉ g.messageCache.value)
    (hstamps : ∀ id cached, g.messageCache.value.lookup id = some cached →
      cached.cachedAt < readings.cachedAt) :
    Remembered id readings.cachedAt [] g'.messageCache.value := by
  cases hstep with
  | onTopics _ _ _ _ hevent => exact hevent.elim
  | duplicate _ _ _ _ cached _ _ hcached =>
      exact absurd (HashMap.mem_iff_exists_lookup.mpr ⟨cached, hcached⟩) hnew
  | received id topic data readings topics stats hnew =>
      refine ⟨⟨_, AList.lookup_insert _, rfl⟩, ?_⟩
      intro k w hw hne
      exact Or.inl (hstamps k w (receiveRoom_kept ((AList.lookup_insert_ne hne).symm.trans hw)))

/-! ## The statistics -/

/-- As many messages were counted, as received or as duplicates, as calls received one. -/
structure Counted (receives : ℕ) (stats : GossipStats) : Prop where
  total : stats.totalReceived + stats.totalDeduplicated = UInt64.ofNat receives
  exact : receives < 2 ^ 64 →
    stats.totalReceived.toNat + stats.totalDeduplicated.toNat = receives

variable {receives : ℕ} {stats stats' : GossipStats}

theorem Counted.received (h : Counted receives stats) {size : ℕ}
    (hstats : stats.countReceived checks size = some stats') : Counted (receives + 1) stats' := by
  simp only [GossipStats.countReceived, Option.bind_eq_bind, Option.bind_eq_some_iff] at hstats
  obtain ⟨totalReceived, hreceived, _, _, heq⟩ := hstats
  obtain rfl := Option.some.inj heq
  obtain rfl := OverflowChecks.add_eq_some hreceived
  refine ⟨?_, ?_⟩
  · change stats.totalReceived + 1 + stats.totalDeduplicated = UInt64.ofNat (receives + 1)
    rw [UInt64.ofNat_add, ← h.total, UInt64.add_assoc, UInt64.add_comm 1, ← UInt64.add_assoc]
    rfl
  · intro hlt
    have hexact := h.exact (by omega)
    change (stats.totalReceived + 1).toNat + stats.totalDeduplicated.toNat = receives + 1
    rw [UInt64.toNat_add, UInt64.toNat_one, Nat.mod_eq_of_lt (by omega)]
    omega

theorem Counted.deduplicated (h : Counted receives stats)
    (hstats : stats.countDeduplicated checks = some stats') : Counted (receives + 1) stats' := by
  simp only [GossipStats.countDeduplicated, Option.bind_eq_bind, Option.bind_eq_some_iff] at hstats
  obtain ⟨totalDeduplicated, hdeduplicated, heq⟩ := hstats
  obtain rfl := Option.some.inj heq
  obtain rfl := OverflowChecks.add_eq_some hdeduplicated
  refine ⟨?_, ?_⟩
  · change stats.totalReceived + (stats.totalDeduplicated + 1) = UInt64.ofNat (receives + 1)
    rw [UInt64.ofNat_add, ← h.total, UInt64.add_assoc]
    rfl
  · intro hlt
    have hexact := h.exact (by omega)
    change stats.totalReceived.toNat + (stats.totalDeduplicated + 1).toNat = receives + 1
    rw [UInt64.toNat_add, UInt64.toNat_one, Nat.mod_eq_of_lt (by omega)]
    omega

theorem Counted.unrelated (h : Counted receives stats)
    (hreceived : stats'.totalReceived = stats.totalReceived)
    (hdeduplicated : stats'.totalDeduplicated = stats.totalDeduplicated) :
    Counted receives stats' := by
  refine ⟨?_, ?_⟩
  · rw [hreceived, hdeduplicated]
    exact h.total
  · rw [hreceived, hdeduplicated]
    exact h.exact

theorem GossipStep.counted {e : GossipEvent P} {r : GossipResult P}
    (hstep : GossipStep checks g e r g') (h : Counted receives g.stats.value) :
    Counted (receives + (if isReceive ⟨g, e, r, g'⟩ then 1 else 0)) g'.stats.value := by
  cases hstep with
  | onTopics e r topics stats hevent hreceived hdeduplicated =>
      have hother : isReceive ⟨g, e, r, { g with topics }.withStats stats⟩ = false := by
        cases e with
        | handleReceivedMessage => exact hevent.elim
        | _ => rfl
      rw [hother]
      exact h.unrelated hreceived hdeduplicated
  | duplicate _ _ _ _ _ _ _ _ _ hstats => exact h.deduplicated hstats
  | received _ _ _ _ _ _ _ _ hstats => exact h.received hstats
  | cleared => exact h
  | unpublished => exact h
  | published _ _ _ _ _ _ hstats =>
      obtain ⟨hreceived, hdeduplicated⟩ := countSent_unrelated hstats
      exact h.unrelated hreceived hdeduplicated

theorem run_counted {calls : List (GossipCall P)}
    (h : (gossipMachine P checks).Run (.withConfig maxCacheSize cacheTtl) calls g) :
    Counted (calls.countP isReceive) g.stats.value := by
  induction h with
  | start => exact ⟨rfl, fun _ => rfl⟩
  | call c hrun hmakes ih =>
      have hstep := gossipMachine_rule hmakes (run_configured hrun).unpoisoned
      rw [List.countP_append, List.countP_singleton]
      exact hstep.counted ih

/-! ## The horizon -/

/-- What is received as new was not in the cache. -/
theorem GossipCall.ReceivesAsNew.not_cached {c : GossipCall P} (h : c.ReceivesAsNew id)
    (hmakes : (gossipMachine P checks).Makes c) (hfree : c.pre.Unpoisoned) :
    id ∉ c.pre.messageCache.value := by
  obtain ⟨topic, data, readings, hevent, hresult⟩ := h
  intro hmem
  apply hresult
  rw [received_none_iff hmakes hevent, hfree.findCached]
  exact AList.lookup_isSome.mpr hmem

/-- What is received as new is remembered from the last reading of the call on, when the
readings before the call, from which the stamps in the cache are, and in it increase. -/
theorem GossipCall.ReceivesAsNew.remembered {c : GossipCall P} (h : c.ReceivesAsNew id)
    (hmakes : (gossipMachine P checks).Makes c) (hfree : c.pre.Unpoisoned) {past : List Instant}
    (hstamped : Stamped past c.pre.messageCache.value)
    (hclock : (past ++ c.readings).Pairwise (· < ·)) :
    ∃ cachedAt, (∀ earlier ∈ c.readings, earlier ≤ cachedAt) ∧
      Remembered id cachedAt [] c.post.messageCache.value := by
  have hnew := h.not_cached hmakes hfree
  obtain ⟨topic, data, readings, hevent, _⟩ := h
  have hreadings : c.readings =
      (if topic ∈ c.pre.topics then [readings.activityAt] else []) ++
        (if c.pre.maxCacheSize ≤ c.pre.messageCache.value.len then [readings.evictedAt]
          else []) ++ [readings.cachedAt] := by
    rw [← readings_received hfree hnew c.result c.post, ← hevent]
  have hstep := gossipMachine_rule hmakes hfree
  rw [hevent] at hstep
  obtain ⟨_, hordered, hpast⟩ := List.pairwise_append.mp hclock
  refine ⟨readings.cachedAt, ?_, ?_⟩
  · rw [hreadings] at hordered ⊢
    intro earlier hearlier
    rcases List.mem_append.mp hearlier with hearlier | hearlier
    · exact Nat.le_of_lt ((List.pairwise_append.mp hordered).2.2 _ hearlier _
        (List.mem_singleton.mpr rfl))
    · exact Nat.le_of_eq (List.mem_singleton.mp hearlier)
  · have hlast : readings.cachedAt ∈ c.readings := by
      rw [hreadings]
      exact List.mem_append_right _ (List.mem_singleton.mpr rfl)
    exact hstep.remembers hnew fun k cached hcached =>
      hpast _ (hstamped k cached hcached) _ hlast

/-- Between two times that a message is received as new, so many others were cached that the
first cannot have been kept, or its time to live has passed. -/
theorem received_as_new_twice {before middle after : List (GossipCall P)}
    {first second : GossipCall P}
    (h : (gossipMachine P checks).Run (.withConfig maxCacheSize cacheTtl)
      ((before ++ [first]) ++ (middle ++ second :: after)) g)
    (hevents : ∀ c ∈ middle, c.event ≠ .clearCache)
    (hclock : ((before ++ [first]).flatMap GossipCall.readings).Pairwise (· < ·))
    (hfirst : first.ReceivesAsNew id) (hsecond : second.ReceivesAsNew id) :
    ∃ cachedAt, (∀ earlier ∈ first.readings, earlier ≤ cachedAt) ∧
      Forgettable maxCacheSize cacheTtl id cachedAt (middle.flatMap newlyCached)
        (middle.flatMap GossipCall.readings) := by
  obtain ⟨next, hfront, hback⟩ := h.cut
  obtain rfl := hfront.last
  obtain ⟨hrun, hmakes⟩ := hfront.split rfl
  obtain ⟨hmiddle, hagain⟩ := hback.split rfl
  rw [List.flatMap_append, List.flatMap_singleton] at hclock
  obtain ⟨cachedAt, hlast, hremembered⟩ := hfirst.remembered hmakes
    (run_configured hrun).unpoisoned (run_stamped hrun) hclock
  refine ⟨cachedAt, hlast, ?_⟩
  obtain ⟨hconfigured, hpast⟩ := run_remembered hmiddle (run_configured hfront) hevents hremembered
  rcases hpast with hkept | hforgettable
  · exact absurd hkept.mem (hsecond.not_cached hagain hconfigured.unpoisoned)
  · exact hforgettable

/-- Duplicates are exactly the messages in the cache; a message received as new again was
outnumbered by the messages cached since, or its time to live has passed; and every message
received is counted once. -/
theorem deduplication_horizon {calls : List (GossipCall P)}
    (h : (gossipMachine P checks).Run (.withConfig maxCacheSize cacheTtl) calls g)
    (hevents : ∀ c ∈ calls, c.event ≠ .clearCache)
    (hclock : (calls.flatMap GossipCall.readings).Pairwise (· < ·)) :
    (∀ c ∈ calls, ∀ id topic data readings,
      c.event = .handleReceivedMessage id topic data readings →
        (c.result = .received (.ok none) ↔ (c.pre.findCached id).isSome)) ∧
      (∀ before first middle second after id,
        calls = before ++ first :: (middle ++ second :: after) →
        first.ReceivesAsNew id → second.ReceivesAsNew id →
          maxCacheSize - max 1 (maxCacheSize / 10) ≤
              ((middle.flatMap newlyCached).toFinset.erase id).card ∨
            ∃ now ∈ middle.flatMap GossipCall.readings, ∀ earlier ∈ first.readings,
              cacheTtl ≤ now - earlier) ∧
      ∃ stats, g.stats.lock = some stats ∧
        stats.totalReceived + stats.totalDeduplicated = UInt64.ofNat (calls.countP isReceive) ∧
        (calls.countP isReceive < 2 ^ 64 →
          stats.totalReceived.toNat + stats.totalDeduplicated.toNat =
            calls.countP isReceive) := by
  refine ⟨?_, ?_, ?_⟩
  · intro c hc id topic data readings he
    exact received_none_iff (h.makes hc) he
  · intro before first middle second after id hcalls hfirst hsecond
    have hcut : calls = (before ++ [first]) ++ (middle ++ second :: after) := by
      rw [hcalls, List.append_assoc]
      rfl
    rw [hcut] at h hevents hclock
    rw [List.flatMap_append] at hclock
    obtain ⟨cachedAt, hlast, hforgettable⟩ := received_as_new_twice h
      (fun c hc => hevents c (List.mem_append_right _ (List.mem_append_left _ hc)))
      (List.pairwise_append.mp hclock).1 hfirst hsecond
    rcases hforgettable with hcard | ⟨now, hnow, hexpired⟩
    · exact Or.inl hcard
    · right
      refine ⟨now, hnow, ?_⟩
      intro earlier hearlier
      exact hexpired.trans (Nat.sub_le_sub_left (hlast earlier hearlier) now)
  · have hcounted := run_counted h
    exact ⟨_, (run_configured h).unpoisoned.lock_stats, hcounted.total, hcounted.exact⟩

/-- A message comes in, comes in again at once, and is new again when it has expired. -/
theorem deduplication_horizon_plain :
    ∃ calls g, (gossipMachine .plain .on).Run (.withConfig 1 100) calls g ∧
      calls.map Call.result = [.received (answerTo .plain [1]), .received (.ok none),
        .received (answerTo .plain [2]), .received (answerTo .plain [1])] ∧
      ∃ stats, g.stats.lock = some stats ∧ stats.totalReceived + stats.totalDeduplicated = 4 := by
  have hrun := ((((Machine.Run.start (M := gossipMachine .plain .on)
    (s := .withConfig 1 100)).of_step (e := .handleReceivedMessage ⟨[1]⟩ Topics.batches [1]
      ⟨0, 0, 0, .stored _⟩) rfl).of_step (e := .handleReceivedMessage ⟨[1]⟩ Topics.batches [1]
        ⟨0, 0, 0, .stored _⟩) rfl).of_step (e := .handleReceivedMessage ⟨[2]⟩ Topics.batches [2]
          ⟨0, 100, 101, .stored _⟩) rfl).of_step (e := .handleReceivedMessage ⟨[1]⟩ Topics.batches
            [1] ⟨0, 300, 301, .stored _⟩) rfl
  have hhorizon := deduplication_horizon hrun ?_ (by decide)
  · obtain ⟨stats, hlock, htotal, _⟩ := hhorizon.2.2
    exact ⟨_, _, hrun, rfl, stats, hlock, htotal⟩
  · intro c hc hclear
    simp only [List.nil_append, List.cons_append, List.mem_cons, List.not_mem_nil, or_false] at hc
    rcases hc with rfl | rfl | rfl | rfl
    all_goals simp at hclear

end SilverNetwork
