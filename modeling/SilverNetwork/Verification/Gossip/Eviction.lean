import SilverNetwork.Verification.Gossip.Semantics

/-! What the two ways of making room leave in the cache, and why the other entries are gone. -/

namespace SilverNetwork

open GossipProtocol Eviction

variable {maxCacheSize : ℕ} {cacheTtl : Duration} {now : Instant} {order : CacheOrder}
  {cache : MessageCache} {id : MessageId} {cached : CachedMessage}

/-- The entries that are not expired yet. -/
def young (cacheTtl : Duration) (now : Instant) (cache : MessageCache) : MessageCache :=
  HashMap.retain cache fun _ cached => decide (now - cached.cachedAt < cacheTtl)

theorem evict_eq (maxCacheSize : ℕ) (cacheTtl : Duration) (now : Instant) (order : CacheOrder)
    (cache : MessageCache) : evict maxCacheSize cacheTtl now order cache =
      if maxCacheSize ≤ (young cacheTtl now cache).len then
        HashMap.eraseAll (oldest CachedMessage.cachedAt order (maxCacheSize / 10)
          (young cacheTtl now cache)) (young cacheTtl now cache)
      else young cacheTtl now cache := rfl

theorem lookup_young : (young cacheTtl now cache).lookup id = some cached ↔
    cache.lookup id = some cached ∧ now - cached.cachedAt < cacheTtl := by
  rw [young, HashMap.lookup_retain, Option.filter_eq_some_iff]
  simp

theorem evict_kept (h : (evict maxCacheSize cacheTtl now order cache).lookup id = some cached) :
    cache.lookup id = some cached := by
  rw [evict_eq] at h
  split at h
  · rw [HashMap.lookup_eraseAll] at h
    split at h
    · simp at h
    · exact (lookup_young.mp h).1
  · exact (lookup_young.mp h).1

theorem evict_gone (h : cache.lookup id = some cached)
    (hgone : (evict maxCacheSize cacheTtl now order cache).lookup id = none) :
    cacheTtl ≤ now - cached.cachedAt ∨
      OutlivedBy CachedMessage.cachedAt (maxCacheSize - maxCacheSize / 10) cache id := by
  by_cases hyoung : now - cached.cachedAt < cacheTtl
  · right
    have hkept := lookup_young.mpr ⟨h, hyoung⟩
    rw [evict_eq] at hgone
    split at hgone
    · rename_i hfull
      rw [HashMap.lookup_eraseAll, hkept] at hgone
      have hold : id ∈ oldest CachedMessage.cachedAt order (maxCacheSize / 10)
          (young cacheTtl now cache) := by
        by_contra hnew
        simp [hnew] at hgone
      apply (outlivedBy_of_mem_oldest hold).mono
      · omega
      · intro k v hv
        exact (lookup_young.mp hv).1
    · rw [hkept] at hgone
      simp at hgone
  · exact Or.inl (Nat.le_of_not_lt hyoung)

/-- Evicting from a full cache makes room exactly when a tenth of its capacity is at least
one entry, or some entry has expired. -/
theorem len_evict_lt_iff (hfull : cache.len = maxCacheSize) :
    (evict maxCacheSize cacheTtl now order cache).len < maxCacheSize ↔
      10 ≤ maxCacheSize ∨
        ∃ id cached, cache.lookup id = some cached ∧ cacheTtl ≤ now - cached.cachedAt := by
  have hexpired : (young cacheTtl now cache).len < maxCacheSize ↔
      ∃ id cached, cache.lookup id = some cached ∧ cacheTtl ≤ now - cached.cachedAt := by
    rw [← hfull, young, HashMap.len_retain_lt_iff]
    simp
  have hle : (young cacheTtl now cache).len ≤ maxCacheSize := by
    rw [← hfull]
    exact HashMap.len_retain_le _ _
  rw [evict_eq, ← hexpired]
  split
  · rename_i hstill
    have hnodup : (oldest CachedMessage.cachedAt order (maxCacheSize / 10)
        (young cacheTtl now cache)).Nodup := oldest_nodup
    have herased := HashMap.len_eraseAll hnodup fun k hk => mem_of_mem_oldest hk
    rw [length_oldest] at herased
    omega
  · rename_i hroom
    have hlt : (young cacheTtl now cache).len < maxCacheSize := Nat.lt_of_not_le hroom
    exact iff_of_true hlt (Or.inr hlt)

theorem dropOldest_kept (h : (dropOldest order cache).lookup id = some cached) :
    cache.lookup id = some cached := by
  unfold dropOldest at h
  split at h
  · exact h
  · rw [HashMap.lookup_erase_eq] at h
    split at h
    · simp at h
    · exact h

theorem dropOldest_gone (h : cache.lookup id = some cached)
    (hgone : (dropOldest order cache).lookup id = none) :
    OutlivedBy CachedMessage.cachedAt (cache.len - 1) cache id := by
  unfold dropOldest at hgone
  split at hgone
  · rw [h] at hgone
    simp at hgone
  · rename_i oldest holdest
    rw [HashMap.lookup_erase_eq] at hgone
    split at hgone
    · rename_i heq
      rw [heq]
      exact outlivedBy_argmin holdest
    · rw [h] at hgone
      simp at hgone

theorem len_dropOldest (order : CacheOrder) (cache : MessageCache) :
    (dropOldest order cache).len = cache.len - 1 := by
  unfold dropOldest
  split
  · rename_i hnone
    have hempty : order.arrange cache.entries = [] := List.argmin_eq_none.mp hnone
    have hlen : cache.len = 0 := by
      rw [HashMap.len, ← order.length_arrange, hempty]
      rfl
    omega
  · rename_i oldest holdest
    have hmem : oldest.1 ∈ cache :=
      List.mem_map_of_mem ((order.perm _).mem_iff.mp (List.argmin_mem holdest))
    have hlen := HashMap.len_erase_of_mem hmem
    omega

/-! ## Making room for a message -/

variable {g : GossipProtocol}

theorem receiveRoom_kept (h : (g.receiveRoom now order).lookup id = some cached) :
    g.messageCache.value.lookup id = some cached := by
  unfold receiveRoom at h
  split at h
  · exact evict_kept h
  · exact h

theorem broadcastRoom_kept (h : (g.broadcastRoom order).lookup id = some cached) :
    g.messageCache.value.lookup id = some cached := by
  unfold broadcastRoom at h
  split at h
  · exact dropOldest_kept h
  · exact h

theorem receiveRoom_gone (h : g.messageCache.value.lookup id = some cached)
    (hgone : (g.receiveRoom now order).lookup id = none) :
    g.maxCacheSize ≤ g.messageCache.value.len ∧
      (g.cacheTtl ≤ now - cached.cachedAt ∨ OutlivedBy CachedMessage.cachedAt
        (g.maxCacheSize - g.maxCacheSize / 10) g.messageCache.value id) := by
  unfold receiveRoom at hgone
  split at hgone
  · rename_i hfull
    exact ⟨hfull, evict_gone h hgone⟩
  · rw [h] at hgone
    simp at hgone

theorem broadcastRoom_gone (h : g.messageCache.value.lookup id = some cached)
    (hgone : (g.broadcastRoom order).lookup id = none) :
    OutlivedBy CachedMessage.cachedAt (g.maxCacheSize - 1) g.messageCache.value id := by
  unfold broadcastRoom at hgone
  split at hgone
  · rename_i hfull
    exact (dropOldest_gone h hgone).mono (by omega) fun _ _ hv => hv
  · rw [h] at hgone
    simp at hgone

end SilverNetwork
