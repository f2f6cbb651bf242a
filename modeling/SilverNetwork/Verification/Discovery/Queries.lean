import SilverNetwork.Foundations.KeySort
import SilverNetwork.Model.Discovery

/-! The life of a discovery query, from its start on, with the results that are passed for it and
whatever is done for other queries in between. The query is forgotten with its first result, so a
query that makes progress in several steps is answered for the first of them alone. -/

namespace SilverNetwork

namespace Discovery

open PeerDiscovery

variable {K : Kademlia} {queryId : K.QueryId} {query : DiscoveryQuery K} {d t : PeerDiscovery K}
  {life : List (DiscoveryCall K)} {c : DiscoveryCall K}

/-! ## Starts and results -/

namespace DiscoveryEvent

/-- What the event starts under the id, if it starts anything there. -/
def starts (queryId : K.QueryId) : DiscoveryEvent K → Option (DiscoveryQuery K)
  | .startBootstrap id _ => if id = queryId then some .bootstrap else none
  | .startFindPeer id peer => if id = queryId then some (.findPeer peer) else none
  | .startGetProviders id key => if id = queryId then some (.getProviders key) else none
  | _ => none

/-- The result that the event passes for the id. -/
def passes (queryId : K.QueryId) : DiscoveryEvent K → Option (QueryResult K)
  | .handleQueryResult id result => if id = queryId then some result else none
  | _ => none

end DiscoveryEvent

/-- The results that a query of each kind may produce. -/
def QueryResult.OfKind : DiscoveryQuery K → QueryResult K → Prop
  | .bootstrap, .bootstrap _ => True
  | .findPeer _, .getClosestPeers _ => True
  | .getProviders _, .getProviders _ => True
  | _, _ => False

/-- The providers that a result has found. -/
def QueryResult.found : QueryResult K → List K.PeerId
  | .getProviders (.ok (.foundProviders providers)) => providers
  | _ => []

def DiscoveryReply.providers : DiscoveryReply K → List K.PeerId
  | .answered (.ok (.getProviders _ providers)) => providers
  | _ => []

/-- How many results are passed for the id. -/
def results (queryId : K.QueryId) (life : List (DiscoveryCall K)) : ℕ :=
  life.countP fun c => (c.event.passes queryId).isSome

/-- No result for the id is rejected as unknown, and all providers that its results have found
are in the answers to them. -/
structure Delivers (queryId : K.QueryId) (life : List (DiscoveryCall K)) : Prop where
  known : ∀ c ∈ life, (c.event.passes queryId).isSome →
    c.result ≠ .answered (.error (unknownQuery queryId))
  complete : ∀ c ∈ life, ∀ result, c.event.passes queryId = some result →
    ∀ provider ∈ result.found, ∃ c' ∈ life, (c'.event.passes queryId).isSome ∧
      provider ∈ c'.result.providers

/-! ## Pending queries -/

theorem makes_eq (hmakes : (discoveryMachine K).Makes c) :
    c.result = (discoveryStep c.pre c.event).1 ∧ c.post = (discoveryStep c.pre c.event).2 := by
  obtain ⟨hresult, hpost⟩ := Prod.mk.inj (Option.some.inj hmakes)
  exact ⟨hresult.symm, hpost.symm⟩

variable {e : DiscoveryEvent K}

/-- An event keeps what is pending under an id, unless it passes a result for the id. -/
theorem lookup_step (d : PeerDiscovery K) (hstart : e.starts queryId = none) :
    (discoveryStep d e).2.pendingQueries.lookup queryId =
      if (e.passes queryId).isSome then none else d.pendingQueries.lookup queryId := by
  cases e with
  | addBootstrapPeer | needsBootstrap | bootstrapPeers | pendingQueriesCount => rfl
  | startBootstrap id | startFindPeer id | startGetProviders id =>
      have hid : queryId ≠ id := by
        rintro rfl
        simp [DiscoveryEvent.starts] at hstart
      simp [discoveryStep, startBootstrap, startFindPeer, startGetProviders,
        DiscoveryEvent.passes, AList.lookup_insert_ne hid]
  | handleQueryResult id result =>
      simp only [discoveryStep, handleQueryResult, DiscoveryEvent.passes]
      by_cases hid : id = queryId
      · subst hid
        cases hlookup : d.pendingQueries.lookup id with
        | none => simp [hlookup]
        | some query => simp
      · cases hlookup : d.pendingQueries.lookup id with
        | none => simp [hid]
        | some query => simp [hid, AList.lookup_erase_ne (Ne.symm hid)]

theorem lookup_start (d : PeerDiscovery K) (hstart : e.starts queryId = some query) :
    (discoveryStep d e).2.pendingQueries.lookup queryId = some query := by
  cases e with
  | addBootstrapPeer | needsBootstrap | bootstrapPeers | pendingQueriesCount
  | handleQueryResult => simp [DiscoveryEvent.starts] at hstart
  | startBootstrap id | startFindPeer id | startGetProviders id =>
      simp only [DiscoveryEvent.starts, Option.ite_none_right_eq_some, Option.some.injEq] at hstart
      obtain ⟨rfl, rfl⟩ := hstart
      simp [discoveryStep, startBootstrap, startFindPeer, startGetProviders]

/-- What is answered to a result. -/
theorem answered_step {result : QueryResult K} (d : PeerDiscovery K)
    (hpasses : e.passes queryId = some result) :
    (discoveryStep d e).1 = .answered (match d.pendingQueries.lookup queryId with
      | none => .error (unknownQuery queryId)
      | some query => answer query result) := by
  cases e with
  | addBootstrapPeer | startBootstrap | startFindPeer | startGetProviders | needsBootstrap
  | bootstrapPeers | pendingQueriesCount => simp [DiscoveryEvent.passes] at hpasses
  | handleQueryResult id result' =>
      simp only [DiscoveryEvent.passes, Option.ite_none_right_eq_some, Option.some.injEq]
        at hpasses
      obtain ⟨rfl, rfl⟩ := hpasses
      simp only [discoveryStep, handleQueryResult]
      cases d.pendingQueries.lookup id with
      | none => rfl
      | some query => rfl

/-- A query is pending until a result is passed for it. -/
theorem run_pending (h : (discoveryMachine K).Run t life d)
    (hlife : ∀ c ∈ life, c.event.starts queryId = none)
    (hquery : t.pendingQueries.lookup queryId = some query) :
    d.pendingQueries.lookup queryId = if results queryId life = 0 then some query else none := by
  induction h with
  | start => simp [results, hquery]
  | @call life c _ hmakes ih =>
      have hpre := ih fun c' hc' => hlife c' (List.mem_append_left _ hc')
      rw [(makes_eq hmakes).2, lookup_step c.pre (hlife c List.mem_concat_self), hpre]
      unfold results
      by_cases hpasses : (c.event.passes queryId).isSome
      · simp [hpasses, List.countP_append]
      · simp [hpasses, List.countP_append]

/-! ## Answers -/

theorem head?_of_append_eq {a b x y : String} (h : a ++ x = b ++ y) (ha : a.toList ≠ [])
    (hb : b.toList ≠ []) : a.toList.head? = b.toList.head? := by
  have hhead := congrArg (fun s => s.toList.head?) h
  simpa [List.head?_append_of_ne_nil _ ha, List.head?_append_of_ne_nil _ hb] using hhead

theorem sortProviders_eq (providers : List K.PeerId) :
    sortProviders providers = KeySort.sortDedup K.toBytes providers := by
  unfold sortProviders KeySort.sortDedup
  congr

@[simp] theorem mem_sortProviders {providers : List K.PeerId} {peer : K.PeerId} :
    peer ∈ sortProviders providers ↔ peer ∈ providers := by
  rw [sortProviders_eq, KeySort.mem_sortDedup]

theorem text_ne_unknown {text : String} (hne : text.toList ≠ [])
    (hhead : text.toList.head? ≠ some 'U') (e : String) (queryId : K.QueryId) :
    (Except.error (.discovery (text ++ e)) : Except NetworkError (DiscoveryResult K)) ≠
      .error (unknownQuery queryId) := by
  intro h
  simp only [unknownQuery, Except.error.injEq, NetworkError.discovery.injEq] at h
  exact hhead (head?_of_append_eq h hne (by decide))

/-- A result of the kind of its query is not answered as one of an unknown query. -/
theorem answer_ne_unknown {result : QueryResult K} (hkind : result.OfKind query)
    (queryId : K.QueryId) : answer query result ≠ .error (unknownQuery queryId) := by
  cases query with
  | bootstrap =>
      cases result with
      | bootstrap outcome =>
          cases outcome with
          | ok => simp [answer]
          | error e => exact text_ne_unknown (by decide) (by decide) e queryId
      | getClosestPeers | getProviders | other => cases hkind
  | findPeer =>
      cases result with
      | getClosestPeers outcome =>
          cases outcome with
          | ok => simp [answer]
          | error e => exact text_ne_unknown (by decide) (by decide) e queryId
      | bootstrap | getProviders | other => cases hkind
  | getProviders =>
      cases result with
      | getProviders outcome =>
          cases outcome with
          | ok => simp [answer]
          | error e => exact text_ne_unknown (by decide) (by decide) e queryId
      | bootstrap | getClosestPeers | other => cases hkind

/-- The providers that a result has found are in the answer to it. -/
theorem found_answered {result : QueryResult K} (hkind : result.OfKind query) {peer : K.PeerId}
    (hfound : peer ∈ result.found) :
    peer ∈ (DiscoveryReply.answered (answer query result)).providers := by
  unfold QueryResult.found at hfound
  split at hfound
  · cases query with
    | getProviders => exact mem_sortProviders.mpr hfound
    | bootstrap | findPeer => cases hkind
  · cases hfound

/-! ## The life of a query -/

/-- Where two members satisfy a predicate, one of them does after another. -/
theorem exists_second {α : Type} {p : α → Bool} {l : List α} (h : 2 ≤ l.countP p) :
    ∃ before x after, l = before ++ x :: after ∧ p x ∧ before.countP p ≠ 0 := by
  induction l using List.reverseRecOn with
  | nil => simp at h
  | append_singleton l x ih =>
      by_cases hmore : 2 ≤ l.countP p
      · obtain ⟨before, y, after, rfl, hy, hbefore⟩ := ih hmore
        exact ⟨before, y, after ++ [x], by simp, hy, hbefore⟩
      · rw [List.countP_append, List.countP_singleton] at h
        refine ⟨l, x, [], rfl, ?_, ?_⟩
        · by_contra hx
          simp only [hx, if_false] at h
          omega
        · split at h <;> omega

theorem exists_second_result (h : 2 ≤ results queryId life) :
    ∃ before c after, life = before ++ c :: after ∧ (c.event.passes queryId).isSome ∧
      results queryId before ≠ 0 := exists_second h

/-- What is answered to a result depends on whether it is the first since the start. -/
theorem run_answered (h : (discoveryMachine K).Run t life d)
    (hlife : ∀ c ∈ life, c.event.starts queryId = none)
    (hquery : t.pendingQueries.lookup queryId = some query)
    {before after : List (DiscoveryCall K)} (hsplit : life = before ++ c :: after)
    {result : QueryResult K} (hpasses : c.event.passes queryId = some result) :
    c.result = .answered (if results queryId before = 0 then answer query result
      else .error (unknownQuery queryId)) := by
  obtain ⟨hrun, hmakes⟩ := h.split hsplit
  have hbefore : ∀ c' ∈ before, c'.event.starts queryId = none := by
    intro c' hc'
    exact hlife c' (by simp [hsplit, hc'])
  rw [(makes_eq hmakes).1, answered_step c.pre hpasses, run_pending hrun hbefore hquery]
  by_cases hfirst : results queryId before = 0
  · simp [hfirst]
  · simp [hfirst]

/-- Where there is no second result, each one is answered. -/
theorem run_answers (h : (discoveryMachine K).Run t life d)
    (hlife : ∀ c ∈ life, c.event.starts queryId = none)
    (hquery : t.pendingQueries.lookup queryId = some query)
    (honce : results queryId life ≤ 1) (hc : c ∈ life) {result : QueryResult K}
    (hpasses : c.event.passes queryId = some result) :
    c.result = .answered (answer query result) := by
  obtain ⟨before, after, hsplit⟩ := List.append_of_mem hc
  have hfirst : results queryId before = 0 := by
    unfold results at honce ⊢
    rw [hsplit, List.countP_append, List.countP_cons_of_pos (by simp [hpasses])] at honce
    omega
  rw [run_answered h hlife hquery hsplit hpasses, if_pos hfirst]

/-- A started query delivers what it finds, whatever else is done meanwhile, exactly where no more
than one result is passed for it. -/
theorem delivers_iff {peers : List (K.PeerId × K.Multiaddr)} {before : List (DiscoveryCall K)}
    {s : DiscoveryCall K} (h : (discoveryMachine K).Run (.new peers) (before ++ s :: life) d)
    (hstart : s.event.starts queryId = some query)
    (hlife : ∀ c ∈ life, c.event.starts queryId = none)
    (hkind : ∀ c ∈ life, ∀ result, c.event.passes queryId = some result → result.OfKind query) :
    Delivers queryId life ↔ results queryId life ≤ 1 := by
  rw [List.append_cons] at h
  obtain ⟨t, hbefore, hrun⟩ := h.cut
  have hquery : t.pendingQueries.lookup queryId = some query := by
    have hmakes := hbefore.makes List.mem_concat_self
    rw [hbefore.last, (makes_eq hmakes).2]
    exact lookup_start s.pre hstart
  constructor
  · intro hdelivers
    by_contra hmore
    obtain ⟨before, c, after, hsplit, hpasses, hsecond⟩ :=
      exists_second_result (Nat.succ_le_of_lt (Nat.lt_of_not_le hmore))
    obtain ⟨result, hresult⟩ := Option.isSome_iff_exists.mp hpasses
    have hanswered := run_answered hrun hlife hquery hsplit hresult
    rw [if_neg hsecond] at hanswered
    exact hdelivers.known c (by simp [hsplit]) hpasses hanswered
  · intro honce
    constructor
    · intro c hc hpasses
      obtain ⟨result, hresult⟩ := Option.isSome_iff_exists.mp hpasses
      rw [run_answers hrun hlife hquery honce hc hresult]
      intro hunknown
      injection hunknown with hanswer
      exact answer_ne_unknown (hkind c hc result hresult) queryId hanswer
    · intro c hc result hresult provider hprovider
      refine ⟨c, hc, by simp [hresult], ?_⟩
      rw [run_answers hrun hlife hquery honce hc hresult]
      exact found_answered (hkind c hc result hresult) hprovider

/-- A query for providers that finds the peers 7 and 3 while another query is started. -/
theorem delivers_iff_plain : ∃ (s : DiscoveryCall .plain) (life : List (DiscoveryCall .plain))
    (d : PeerDiscovery .plain), (discoveryMachine .plain).Run (.new []) ([] ++ s :: life) d ∧
      results (K := .plain) 1 life = 1 ∧ Delivers (K := .plain) 1 life := by
  have hcalls := Machine.Run.start.of_step (M := discoveryMachine .plain) (s := .new [])
    (e := .startGetProviders 1 [9]) rfl |>.of_step (e := .startBootstrap 2 0) rfl
      |>.of_step (e := .handleQueryResult 1 (.getProviders (.ok (.foundProviders [7, 3])))) rfl
  have hrun : (discoveryMachine .plain).Run (.new []) ([] ++ _ :: [_, _]) _ := hcalls
  refine ⟨_, _, _, hrun, rfl, (delivers_iff hrun rfl ?_ ?_).mpr (by decide)⟩
  · exact List.forall_mem_cons.mpr ⟨rfl, List.forall_mem_cons.mpr ⟨rfl, List.forall_mem_nil _⟩⟩
  · refine List.forall_mem_cons.mpr ⟨?_, List.forall_mem_cons.mpr ⟨?_, List.forall_mem_nil _⟩⟩
    · intro result hresult
      cases hresult
    · intro result hresult
      cases hresult
      trivial

/-- The second step of a query for providers is rejected, and what it found is lost. -/
theorem second_result_rejected : ¬ ∀ (peers : List (UInt8 × ℕ)) (queryId : ℕ)
    (query : DiscoveryQuery .plain) (before life : List (DiscoveryCall .plain))
    (s : DiscoveryCall .plain) (d : PeerDiscovery .plain),
    (discoveryMachine .plain).Run (.new peers) (before ++ s :: life) d →
      s.event.starts queryId = some query →
      (∀ c ∈ life, c.event.starts queryId = none) →
      (∀ c ∈ life, ∀ result, c.event.passes queryId = some result → result.OfKind query) →
      Delivers (K := .plain) queryId life := by
  intro hall
  have hcalls := Machine.Run.start.of_step (M := discoveryMachine .plain) (s := .new [])
    (e := .startGetProviders 1 [9]) rfl
      |>.of_step (e := .handleQueryResult 1 (.getProviders (.ok (.foundProviders [7])))) rfl
      |>.of_step (e := .handleQueryResult 1 (.getProviders (.ok (.foundProviders [3])))) rfl
  have hrun : (discoveryMachine .plain).Run (.new []) ([] ++ _ :: [_, _]) _ := hcalls
  have hdelivers := hall [] 1 (.getProviders [9]) _ _ _ _ hrun rfl ?_ ?_
  · exact hdelivers.known _ (List.mem_cons_of_mem _ (List.mem_singleton.mpr rfl)) rfl rfl
  · exact List.forall_mem_cons.mpr ⟨rfl, List.forall_mem_cons.mpr ⟨rfl, List.forall_mem_nil _⟩⟩
  · refine List.forall_mem_cons.mpr ⟨?_, List.forall_mem_cons.mpr ⟨?_, List.forall_mem_nil _⟩⟩
    · intro result hresult
      cases hresult
      trivial
    · intro result hresult
      cases hresult
      trivial

end Discovery

end SilverNetwork
