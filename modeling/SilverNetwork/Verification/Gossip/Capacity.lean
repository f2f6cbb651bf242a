import SilverNetwork.Verification.Gossip.Eviction

/-! The bound on the size of the cache, and exactly which calls break it. Below a capacity of
ten, a tenth of the capacity is no entry at all. -/

namespace SilverNetwork

open GossipProtocol

variable {P : Payloads} {checks : OverflowChecks} {g g' : GossipProtocol}

namespace GossipProtocol

/-- Receiving the message keeps the cache within its capacity: the message is cached, or there
is room, or room is made by expiry or by dropping a tenth of the capacity. -/
def ReceiveFits (id : MessageId) (readings : ReceiveReadings) (g : GossipProtocol) : Prop :=
  id ∈ g.messageCache.value ∨ g.messageCache.value.len < g.maxCacheSize ∨ 10 ≤ g.maxCacheSize ∨
    ∃ id' cached, g.messageCache.value.lookup id' = some cached ∧
      g.cacheTtl ≤ readings.evictedAt - cached.cachedAt

/-- The call keeps the cache within its capacity. -/
def KeepsCapacity (g : GossipProtocol) : GossipEvent P → Prop
  | .handleReceivedMessage id _ _ readings => g.ReceiveFits id readings
  | .broadcast messageType data _ _ => g.Publishes messageType data → 0 < g.maxCacheSize
  | _ => True

/-- The cache is within its capacity. -/
structure Fits (maxCacheSize : ℕ) (cacheTtl : Duration) (g : GossipProtocol) : Prop
    extends Configured maxCacheSize cacheTtl g where
  size : g.messageCache.value.len ≤ maxCacheSize

end GossipProtocol

variable {maxCacheSize : ℕ} {cacheTtl : Duration} {id : MessageId} {cached : CachedMessage}

theorem len_insert_seen (h : g.messageCache.value.lookup id = some cached)
    (cached' : CachedMessage) :
    HashMap.len (g.messageCache.value.insert id cached') ≤ g.messageCache.value.len := by
  apply HashMap.len_le_of_subset
  intro k hk
  rcases (AList.mem_insert _).mp hk with rfl | hk
  · exact HashMap.mem_iff_exists_lookup.mpr ⟨cached, h⟩
  · exact hk

/-- A new message fits into what is left for it exactly when the call meets its condition. -/
theorem receiveRoom_lt_iff (hg : g.Fits maxCacheSize cacheTtl) (hnew : id ∉ g.messageCache.value)
    (readings : ReceiveReadings) :
    (g.receiveRoom readings.evictedAt readings.order).len < maxCacheSize ↔
      g.ReceiveFits id readings := by
  have hsize := hg.size
  unfold receiveRoom ReceiveFits
  rw [hg.capacity]
  split
  · rename_i hfull
    rw [len_evict_lt_iff (by omega)]
    simp [hnew, Nat.not_lt.mpr hfull]
  · rename_i hroom
    have hlt : g.messageCache.value.len < maxCacheSize := Nat.lt_of_not_le hroom
    exact iff_of_true hlt (Or.inr (Or.inl hlt))

theorem broadcastRoom_lt_iff (hg : g.Fits maxCacheSize cacheTtl) (order : CacheOrder) :
    (g.broadcastRoom order).len < maxCacheSize ↔ 0 < maxCacheSize := by
  have hsize := hg.size
  unfold broadcastRoom
  rw [hg.capacity]
  split
  · rw [len_dropOldest]
    omega
  · omega

theorem GossipStep.size_le_iff {e : GossipEvent P} {r : GossipResult P}
    (hstep : GossipStep checks g e r g') (hg : g.Fits maxCacheSize cacheTtl) :
    g'.messageCache.value.len ≤ maxCacheSize ↔ g.KeepsCapacity e := by
  have hsize := hg.size
  cases hstep with
  | onTopics e r topics stats hevent =>
      have hkeeps : g.KeepsCapacity e := by
        cases e with
        | handleReceivedMessage => exact hevent.elim
        | broadcast => exact hevent.elim
        | _ => trivial
      exact iff_of_true hsize hkeeps
  | duplicate id topic data readings cached seenCount stats hcached =>
      have hin : id ∈ g.messageCache.value := HashMap.mem_iff_exists_lookup.mpr ⟨cached, hcached⟩
      exact iff_of_true ((len_insert_seen hcached _).trans hsize) (Or.inl hin)
  | received id topic data readings topics stats hnew =>
      have hlen : HashMap.len ((g.receiveRoom readings.evictedAt readings.order).insert id
          { id, data, cachedAt := readings.cachedAt, seenCount := 1 }) =
            (g.receiveRoom readings.evictedAt readings.order).len + 1 :=
        HashMap.len_insert_of_kept hnew (fun _ _ => receiveRoom_kept) _
      rw [KeepsCapacity, ← receiveRoom_lt_iff hg hnew]
      exact (congrArg (· ≤ maxCacheSize) hlen).to_iff
  | cleared => exact iff_of_true (Nat.zero_le _) trivial
  | unpublished messageType data cachedAt order result hrefused =>
      exact iff_of_true hsize fun hpublishes => (hrefused hpublishes).elim
  | published messageType data cachedAt order stats hpublishes =>
      have hlen : HashMap.len ((g.broadcastRoom order).insert (.new data)
          { id := .new data, data, cachedAt, seenCount := 1 }) = (g.broadcastRoom order).len + 1 :=
        HashMap.len_insert_of_kept hpublishes.2 (fun _ _ => broadcastRoom_kept) _
      simp only [KeepsCapacity, hpublishes, forall_const, hg.capacity]
      rw [← broadcastRoom_lt_iff hg order]
      exact (congrArg (· ≤ maxCacheSize) hlen).to_iff

/-- A run keeps the cache within its capacity in every state that it reaches exactly when each
of its calls meets the condition. -/
theorem cache_bounded_iff {calls : List (GossipCall P)}
    (h : (gossipMachine P checks).Run (.withConfig maxCacheSize cacheTtl) calls g) :
    (∀ c ∈ calls, c.post.cacheSize ≤ maxCacheSize) ↔
      ∀ c ∈ calls, c.pre.KeepsCapacity c.event := by
  have hfits := h.forall_post_iff (I := Fits maxCacheSize cacheTtl)
    (C := fun c => c.pre.KeepsCapacity c.event)
    ⟨configured_withConfig maxCacheSize cacheTtl, Nat.zero_le _⟩ ?_
  · rw [← hfits]
    apply forall₂_congr
    intro c hc
    obtain ⟨before, hrun, -⟩ := h.before hc
    have hpre := run_configured hrun
    have hpost := (gossipMachine_rule (h.makes hc) hpre.unpoisoned).configured hpre
    rw [hpost.unpoisoned.cacheSize]
    exact ⟨fun hsize => ⟨hpost, hsize⟩, fun hfits => hfits.size⟩
  · intro c hmakes hpre
    have hstep := gossipMachine_rule hmakes hpre.unpoisoned
    rw [← hstep.size_le_iff hpre]
    exact ⟨fun hfits => hfits.size, fun hsize => ⟨hstep.configured hpre.toConfigured, hsize⟩⟩

/-- In a cache for one message, a second message takes the place of an expired one. -/
theorem cache_bounded_iff_plain :
    ∃ calls g, (gossipMachine .plain .on).Run (.withConfig 1 100) calls g ∧
      calls.length = 2 ∧ ∀ c ∈ calls, c.post.cacheSize ≤ 1 := by
  have hrun := ((Machine.Run.start (M := gossipMachine .plain .on)
    (s := .withConfig 1 100)).of_step (e := .handleReceivedMessage ⟨[1]⟩ Topics.batches [1]
      ⟨0, 0, 0, .stored _⟩) rfl).of_step (e := .handleReceivedMessage ⟨[2]⟩ Topics.batches [2]
        ⟨200, 200, 200, .stored _⟩) rfl
  refine ⟨_, _, hrun, rfl, (cache_bounded_iff hrun).mpr ?_⟩
  intro c hc
  rcases List.mem_append.mp hc with hc | hc
  · obtain rfl := List.mem_singleton.mp hc
    exact Or.inr (Or.inl (by decide))
  · obtain rfl := List.mem_singleton.mp hc
    exact Or.inr (Or.inr (Or.inr ⟨⟨[1]⟩, _, rfl, by decide⟩))

/-- A cache for one message holds two after two messages have come in at the same time. -/
theorem cache_exceeds_capacity :
    ∃ calls g, (gossipMachine .plain .on).Run (.withConfig 1 100) calls g ∧
      calls.map Call.event = [.handleReceivedMessage ⟨[1]⟩ Topics.batches [1] ⟨0, 0, 0, .stored _⟩,
        .handleReceivedMessage ⟨[2]⟩ Topics.batches [2] ⟨1, 1, 1, .stored _⟩] ∧
      g.maxCacheSize = 1 ∧ g.cacheSize = 2 := by
  have hrun := ((Machine.Run.start (M := gossipMachine .plain .on)
    (s := .withConfig 1 100)).of_step (e := .handleReceivedMessage ⟨[1]⟩ Topics.batches [1]
      ⟨0, 0, 0, .stored _⟩) rfl).of_step (e := .handleReceivedMessage ⟨[2]⟩ Topics.batches [2]
        ⟨1, 1, 1, .stored _⟩) rfl
  exact ⟨_, _, hrun, rfl, rfl, rfl⟩

end SilverNetwork
