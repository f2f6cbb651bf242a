import SilverNetwork.Model.Behaviour
import SilverNetwork.Verification.Gossip.Eviction

/-! What a node makes of its own broadcast when it comes back. The cache knows the broadcast
by its data, while `gossipsub` calls it by the decimal digits of a hash of the data. -/

namespace SilverNetwork

open GossipProtocol

variable {P : Payloads} {checks : OverflowChecks} {hash : Bytes → UInt64}

/-! ## The two identifiers -/

theorem isDigit_utf8 {c : Char} (h : c.isDigit) {b : UInt8} (hb : b ∈ String.utf8EncodeChar c) :
    48 ≤ b.toNat ∧ b.toNat ≤ 57 := by
  have hrange : 48 ≤ c.val.toNat ∧ c.val.toNat ≤ 57 := by
    simpa [Char.isDigit, UInt32.le_iff_toNat_le] using h
  have hsize : c.utf8Size = 1 := by
    rw [Char.utf8Size_eq_one_iff, UInt32.le_iff_toNat_le]
    exact Nat.le_trans hrange.2 (by decide)
  rw [String.utf8EncodeChar_eq_singleton hsize, List.mem_singleton] at hb
  rw [hb, UInt32.toNat_toUInt8, Nat.mod_eq_of_lt (by omega)]
  exact hrange

theorem messageIdFn_digits (hash : Bytes → UInt64) (data : Bytes) :
    ∀ b ∈ (messageIdFn hash data).bytes, 48 ≤ b.toNat ∧ b.toNat ≤ 57 := by
  intro b hb
  obtain ⟨c, hc, hb⟩ := List.mem_flatMap.mp hb
  rw [Nat.toString_eq_repr, Nat.toList_repr] at hc
  exact isDigit_utf8 (Nat.isDigit_of_mem_toDigits (by decide) (by decide) hc) hb

/-! ## The cache after a broadcast -/

variable {g g' next : GossipProtocol} {id : MessageId} {messageType : MessageType}
  {data : Bytes} {cachedAt : Instant} {order : CacheOrder}

/-- The message is in the cache and stays there when the data is broadcast: the data is there
as well, or there is room for it, or the entry that makes room is another one. -/
def StaysCached (id : MessageId) (data : Bytes) (order : CacheOrder) (g : GossipProtocol) :
    Prop :=
  id ∈ g.messageCache.value ∧
    (MessageId.new data ∈ g.messageCache.value ∨
      g.messageCache.value.len < g.maxCacheSize ∨
        ∀ oldest, (order.arrange g.messageCache.value.entries).argmin (fun e => e.2.cachedAt) =
          some oldest → oldest.1 ≠ id)

theorem mem_dropOldest {cache : MessageCache} : id ∈ dropOldest order cache ↔
    id ∈ cache ∧ ∀ oldest, (order.arrange cache.entries).argmin (fun e => e.2.cachedAt) =
      some oldest → oldest.1 ≠ id := by
  unfold dropOldest
  split
  · rename_i hnone
    simp [hnone]
  · rename_i oldest holdest
    rw [AList.mem_erase, holdest]
    simp only [Option.some.injEq, forall_eq']
    exact ⟨fun h => ⟨h.2, Ne.symm h.1⟩, fun h => ⟨Ne.symm h.2, h.1⟩⟩

theorem mem_broadcastRoom (hnew : MessageId.new data ∉ g.messageCache.value) :
    id ∈ g.broadcastRoom order ↔ StaysCached id data order g := by
  unfold broadcastRoom StaysCached
  split
  · rename_i hfull
    rw [mem_dropOldest]
    simp [hnew, Nat.not_lt.mpr hfull]
  · rename_i hroom
    have hlt : g.messageCache.value.len < g.maxCacheSize := Nat.lt_of_not_le hroom
    simp [hlt]

theorem mem_cache_of_broadcast (hfree : g.Unpoisoned)
    (h : g.broadcast checks messageType data cachedAt order = some (.ok (), g')) :
    id ∈ g'.messageCache.value ↔ id = .new data ∨ StaysCached id data order g := by
  have hcaught := broadcast_caches h
  have hstep := broadcast_rule (P := .plain) hfree h
  cases hstep with
  | onTopics _ _ _ _ hevent => exact hevent.elim
  | unpublished =>
      rw [hfree.findCached, AList.lookup_isSome] at hcaught
      constructor
      · intro hmem
        exact Or.inr ⟨hmem, Or.inl hcaught⟩
      · rintro (rfl | hstays)
        · exact hcaught
        · exact hstays.1
  | published _ _ _ _ _ hpublishes =>
      rw [← mem_broadcastRoom hpublishes.2]
      exact AList.mem_insert _

/-- After a broadcast, a message is a duplicate exactly when it has the data as its identifier
or has stayed in the cache. -/
theorem duplicate_after_broadcast_iff (hfree : g.Unpoisoned)
    (hbroadcast : g.broadcast checks messageType data cachedAt order = some (.ok (), g'))
    {topic : String} {content : Bytes} {readings : ReceiveReadings}
    {answer : Except NetworkError (Option (NetworkMessage P))}
    (hreceived : g'.handleReceivedMessage checks id topic content readings =
      some (answer, next)) :
    answer = .ok none ↔ id = .new data ∨ StaysCached id data order g := by
  have hfree' : g'.Unpoisoned :=
    ((broadcast_rule (P := P) hfree hbroadcast).configured ⟨rfl, rfl, hfree⟩).unpoisoned
  rw [← mem_cache_of_broadcast hfree hbroadcast, ← AList.lookup_isSome, ← hfree'.findCached]
  have hanswer := handleReceivedMessage_answer hreceived
  split at hanswer
  · rename_i hcached
    exact iff_of_true hanswer hcached
  · rename_i hnew
    rw [hanswer]
    exact iff_of_false (answerTo_ne_none P content) hnew

/-- A node that receives its own broadcast takes it for a duplicate exactly when the data is
the decimal form of its own hash, or the cache knew the message by that name already and has
kept it. -/
theorem own_broadcast_recognised_iff {maxCacheSize : ℕ} {cacheTtl : Duration}
    {calls : List (GossipCall P)}
    (h : (gossipMachine P checks).Run (.withConfig maxCacheSize cacheTtl) calls g)
    (hbroadcast : g.broadcast checks messageType data cachedAt order = some (.ok (), g'))
    {topic : String} {readings : ReceiveReadings}
    {answer : Except NetworkError (Option (NetworkMessage P))}
    (hreceived : g'.handleReceivedMessage checks (messageIdFn hash data) topic data readings =
      some (answer, next)) :
    answer = .ok none ↔ messageIdFn hash data = .new data ∨
      StaysCached (messageIdFn hash data) data order g :=
  duplicate_after_broadcast_iff (run_configured h).unpoisoned hbroadcast hreceived

/-- A node that has received a message under its hash knows it when it broadcasts the same. -/
theorem own_broadcast_recognised_iff_plain :
    ∃ calls g g' answer next, (gossipMachine .plain .on).Run (.withConfig 10 100) calls g ∧
      g.broadcast .on .batch [1] 2 (.stored _) = some (.ok (), g') ∧
      g'.handleReceivedMessage (P := .plain) .on (messageIdFn (fun _ => 14494360753792957044) [1])
        Topics.batches [1] ⟨3, 3, 3, .stored _⟩ = some (answer, next) ∧ answer = .ok none := by
  have hrun := ((Machine.Run.start (M := gossipMachine .plain .on)
    (s := .withConfig 10 100)).of_step (e := .subscribe Topics.batches 0) rfl).of_step
      (e := .handleReceivedMessage (messageIdFn (fun _ => 14494360753792957044) [1])
        Topics.batches [1] ⟨1, 1, 1, .stored _⟩) rfl
  obtain ⟨calls, g, hrun, hstays, g', hbroadcast, answer, next, hreceived⟩ :
      ∃ calls g, (gossipMachine .plain .on).Run (.withConfig 10 100) calls g ∧
        StaysCached (messageIdFn (fun _ => 14494360753792957044) [1]) [1] (.stored _) g ∧
        ∃ g', g.broadcast .on .batch [1] 2 (.stored _) = some (.ok (), g') ∧
        ∃ answer next, g'.handleReceivedMessage (P := .plain) .on
          (messageIdFn (fun _ => 14494360753792957044) [1]) Topics.batches [1]
            ⟨3, 3, 3, .stored _⟩ = some (answer, next) :=
    ⟨_, _, hrun, ⟨HashMap.mem_insert_self _ _ _, Or.inr (Or.inl (by decide))⟩, _, rfl, _, _, rfl⟩
  exact ⟨calls, g, g', answer, next, hrun, hbroadcast, hreceived,
    (own_broadcast_recognised_iff hrun hbroadcast hreceived).mpr (Or.inr hstays)⟩

/-- Whatever the hash, a fresh node never takes its own broadcast of the byte 1 for a
duplicate. -/
theorem own_broadcast_received_as_new :
    ∃ calls g g', (gossipMachine .plain .on).Run (.withConfig 10 100) calls g ∧
      g.broadcast .on .batch [1] 1 (.stored _) = some (.ok (), g') ∧
      ¬ ∃ hash next, g'.handleReceivedMessage (P := .plain) .on (messageIdFn hash [1])
        Topics.batches [1] ⟨2, 2, 2, .stored _⟩ = some (.ok none, next) := by
  have hrun := (Machine.Run.start (M := gossipMachine .plain .on)
    (s := .withConfig 10 100)).of_step (e := .subscribe Topics.batches 0) rfl
  obtain ⟨calls, g, hrun, hempty, g', hbroadcast⟩ :
      ∃ calls g, (gossipMachine .plain .on).Run (.withConfig 10 100) calls g ∧
        g.messageCache.value = ∅ ∧
        ∃ g', g.broadcast .on .batch [1] 1 (.stored _) = some (.ok (), g') :=
    ⟨_, _, hrun, rfl, _, rfl⟩
  refine ⟨calls, g, g', hrun, hbroadcast, ?_⟩
  rintro ⟨hash, next, hreceived⟩
  rcases (duplicate_after_broadcast_iff (run_configured hrun).unpoisoned hbroadcast
    hreceived).mp rfl with hsame | hstays
  · have hdigit := messageIdFn_digits hash [1] 1 (by simp [hsame, MessageId.new])
    exact absurd hdigit.1 (by decide)
  · have hmem := hstays.1
    rw [hempty] at hmem
    exact AList.notMem_empty _ hmem

end SilverNetwork
