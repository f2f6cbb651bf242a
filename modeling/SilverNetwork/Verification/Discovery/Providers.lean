import SilverNetwork.Verification.Discovery.Queries

/-! The list of providers that a query is answered with. It stands for the set of those found: in
which order they were found, and how often, cannot be told from it. -/

namespace SilverNetwork

namespace Discovery

open PeerDiscovery

variable {K : Kademlia} {d : PeerDiscovery K} {queryId : K.QueryId} {key : Bytes}

/-- The canonical list of the peers found. -/
structure Canonical (found providers : List K.PeerId) : Prop where
  members : ∀ peer, peer ∈ providers ↔ peer ∈ found
  increasing : providers.Pairwise fun a b => K.toBytes a < K.toBytes b
  nodup : providers.Nodup

theorem canonical_sortProviders (hbytes : Function.Injective K.toBytes)
    (found : List K.PeerId) : Canonical found (sortProviders found) where
  members _ := mem_sortProviders
  increasing := by
    rw [sortProviders_eq]
    exact KeySort.pairwise_sortDedup hbytes found
  nodup := by
    rw [sortProviders_eq]
    exact KeySort.nodup_sortDedup hbytes found

theorem answered_of_pending (hpending : d.pendingQueries.lookup queryId = some (.getProviders key))
    (found : ProvidersFound K) :
    (d.handleQueryResult queryId (.getProviders (.ok found))).1 =
      .ok (.getProviders key (sortProviders found.peers)) := by
  simp only [handleQueryResult, hpending, answer]

/-- A pending query for providers is answered with the canonical list of those found, which is the
same whenever the same peers are found, by whatever discovery, in whatever order. -/
theorem providers_canonical (hbytes : Function.Injective K.toBytes)
    (hpending : d.pendingQueries.lookup queryId = some (.getProviders key))
    (found : ProvidersFound K) :
    ∃ providers, (d.handleQueryResult queryId (.getProviders (.ok found))).1 =
        .ok (.getProviders key providers) ∧ Canonical found.peers providers ∧
      ∀ (d' : PeerDiscovery K) (queryId' : K.QueryId) (key' : Bytes) (found' : ProvidersFound K),
        d'.pendingQueries.lookup queryId' = some (.getProviders key') →
        (∀ peer, peer ∈ found'.peers ↔ peer ∈ found.peers) →
        (d'.handleQueryResult queryId' (.getProviders (.ok found'))).1 =
          .ok (.getProviders key' providers) := by
  refine ⟨sortProviders found.peers, answered_of_pending hpending found,
    canonical_sortProviders hbytes found.peers, ?_⟩
  intro d' queryId' key' found' hpending' hsame
  rw [answered_of_pending hpending', sortProviders_eq, sortProviders_eq,
    KeySort.sortDedup_congr hbytes hsame]

/-- The peers 3 and 7, found as a set, or as closest peers of which one is repeated. -/
theorem providers_canonical_plain :
    ∃ (d d' : PeerDiscovery .plain) (providers : List UInt8),
      (handleQueryResult (K := .plain) 1 (.getProviders (.ok (.foundProviders [7, 3]))) d).1 =
          .ok (.getProviders [9] providers) ∧
      Canonical (K := .plain) [7, 3] providers ∧
      (handleQueryResult (K := .plain) 2
        (.getProviders (.ok (.finishedWithNoAdditionalRecord [3, 7, 3]))) d').1 =
          .ok (.getProviders [8] providers) := by
  have hbytes : Function.Injective Kademlia.plain.toBytes := fun a b h => (List.cons.inj h).1
  have hpending : (startGetProviders (K := .plain) 1 [9] (.new [])).pendingQueries.lookup 1 =
      some (.getProviders [9]) := rfl
  have hpending' : (startGetProviders (K := .plain) 2 [8] (.new [])).pendingQueries.lookup 2 =
      some (.getProviders [8]) := rfl
  obtain ⟨providers, hanswer, hcanonical, hsame⟩ :=
    providers_canonical hbytes hpending (.foundProviders [7, 3])
  refine ⟨_, _, providers, hanswer, hcanonical, hsame _ _ _ _ hpending' ?_⟩
  intro peer
  simp only [ProvidersFound.peers, List.mem_cons]
  constructor
  · rintro (h | h | h | h)
    · exact .inr (.inl h)
    · exact .inl h
    · exact .inr (.inl h)
    · exact .inr (.inr h)
  · rintro (h | h | h)
    · exact .inr (.inl h)
    · exact .inl h
    · exact .inr (.inr (.inr h))

end Discovery

end SilverNetwork
