import SilverNetwork.Verification.Sync.Ranges

/-! Which transactions complete a download. What counts is the size of the store, and a download
starts with whatever the store holds by then. -/

namespace SilverNetwork

open StateSync

variable {P : Platform} {checks : OverflowChecks} {s t : StateSync P}
  {calls : List (SyncCall P)}

/-- An answer comes in, or the clock goes on. -/
def SyncEvent.Continues : SyncEvent P → Prop
  | .handleTransactions .. | .handleTimeouts _ => True
  | _ => False

/-- The digests of the transactions that the calls bring in. -/
def receivedDigests (calls : List (SyncCall P)) : Finset P.TransactionDigest :=
  ((calls.flatMap fun c => c.event.transactions).map P.digest).toFinset

def Completes (c : SyncCall P) : Prop :=
  ∃ applied, .applyTransactions applied ∈ c.result.emitted

/-- The first of the calls to complete the download does so when at least `count` different
transactions have come in with the calls. -/
def CompletesOnOwn (count : ℕ) (calls : List (SyncCall P)) : Prop :=
  ∀ before c after, calls = before ++ c :: after → Completes c →
    (∀ c' ∈ before, ¬ Completes c') → count ≤ (receivedDigests (before ++ [c])).card

/-- The download that has been started, or that has been given up. -/
structure Awaits (fromSequence toSequence : UInt64) (t : Instant) (calls : List (SyncCall P))
    (s : StateSync P) : Prop where
  state : s.state = .downloadingTransactions fromSequence toSequence t ∨ s.state = .idle
  stored : ∀ d, d ∈ s.downloadedTransactions ↔ d ∈ receivedDigests calls

theorem mem_receivedDigests_concat {c : SyncCall P} {d : P.TransactionDigest} :
    d ∈ receivedDigests (calls ++ [c]) ↔
      (∃ tx ∈ c.event.transactions, P.digest tx = d) ∨ d ∈ receivedDigests calls := by
  simp only [receivedDigests, List.flatMap_append, List.flatMap_singleton, List.map_append,
    List.toFinset_append, Finset.mem_union, List.mem_toFinset, List.mem_map]
  exact or_comm

theorem receivedDigests_concat_of_silent {c : SyncCall P} (h : c.event.transactions = []) :
    receivedDigests (calls ++ [c]) = receivedDigests calls := by
  ext d
  simp [mem_receivedDigests_concat, h]

variable {fromSequence toSequence : UInt64} {startedAt : Instant}

/-- A call that does not complete the download files what it brings in with the rest. -/
theorem Awaits.step {c : SyncCall P} (h : Awaits fromSequence toSequence startedAt calls c.pre)
    (hmakes : (syncMachine P checks).Makes c) (hcontinues : c.event.Continues)
    (hopen : ¬ Completes c) : Awaits fromSequence toSequence startedAt (calls ++ [c]) c.post := by
  have hfiled : ∀ transactions, c.event.transactions = transactions →
      ∀ d, d ∈ storeTransactions transactions c.pre.downloadedTransactions ↔
        d ∈ receivedDigests (calls ++ [c]) := by
    intro transactions htransactions d
    rw [storeTransactions, KeyedStore.mem_store, h.stored, mem_receivedDigests_concat,
      htransactions]
  obtain ⟨s, e, r, t⟩ := c
  have hstep : SyncStep checks s e r t := syncMachine_makes_iff.mp hmakes
  cases hstep with
  | transactionsComplete => exact absurd ⟨_, List.mem_singleton.mpr rfl⟩ hopen
  | transactionsPartial transactions | transactionsUnsolicited transactions =>
      exact ⟨h.state, hfiled transactions rfl⟩
  | timeoutsHandled readings =>
      refine ⟨?_, ?_⟩
      · simp only [handleTimeouts]
        split
        · exact h.state
        · exact .inr rfl
      · rw [receivedDigests_concat_of_silent rfl]
        exact h.stored
  | _ => exact hcontinues.elim

/-- A download that has started with nothing stored is completed by its own answers. -/
theorem Awaits.completed {c : SyncCall P}
    (h : Awaits fromSequence toSequence startedAt calls c.pre)
    (hordered : OrderedRange fromSequence toSequence) (hmakes : (syncMachine P checks).Makes c)
    (hcompletes : Completes c) :
    toSequence.toNat - fromSequence.toNat + 1 ≤ (receivedDigests (calls ++ [c])).card := by
  obtain ⟨applied, happlied⟩ := hcompletes
  obtain ⟨s, e, r, t⟩ := c
  have hstep : SyncStep checks s e r t := syncMachine_makes_iff.mp hmakes
  cases hstep with
  | transactionsComplete transactions peer order f t' t₁ expected hstate hexpected henough =>
      rcases h.state with hdownload | hidle
      · obtain ⟨rfl, rfl, rfl⟩ :=
          SyncState.downloadingTransactions.inj (hdownload.symm.trans hstate)
        rw [expectedCount_of_ordered checks hordered] at hexpected
        obtain rfl := Option.some.inj hexpected
        refine henough.trans (Nat.le_of_eq (HashMap.len_eq_card fun d => ?_))
        rw [storeTransactions, KeyedStore.mem_store, h.stored, mem_receivedDigests_concat]
        rfl
      · exact SyncState.noConfusion (hidle.symm.trans hstate)
  | timeoutsHandled => simp [SyncResult.emitted, handleTimeouts] at happlied
  | _ => simp [SyncResult.emitted] at happlied

theorem Awaits.run (h : Awaits fromSequence toSequence startedAt [] s)
    (hrun : (syncMachine P checks).Run s calls t) (hcontinues : ∀ c ∈ calls, c.event.Continues)
    (hopen : ∀ c ∈ calls, ¬ Completes c) :
    Awaits fromSequence toSequence startedAt calls t := by
  induction hrun with
  | start => exact h
  | @call calls c _ hmakes ih =>
      have hpre := ih (fun c' hc' => hcontinues c' (List.mem_append_left _ hc'))
        fun c' hc' => hopen c' (List.mem_append_left _ hc')
      exact hpre.step hmakes (hcontinues c List.mem_concat_self) (hopen c List.mem_concat_self)

/-! ## Any download -/

/-- A started download leaves the store as it is. -/
theorem started {peer : P.PeerId} {requestedAt : Instant}
    (h : s.startTransactionDownload checks fromSequence toSequence peer startedAt requestedAt =
      some (.ok (), t)) : t.state = .downloadingTransactions fromSequence toSequence startedAt ∧
        t.downloadedTransactions = s.downloadedTransactions := by
  have hstep : syncStep checks s
      (.startTransactionDownload fromSequence toSequence peer startedAt requestedAt) =
        some (.unit (.ok ()), t) := by
    rw [syncStep, h]
    rfl
  cases syncStep_rule hstep with
  | transactionsRequested => exact ⟨rfl, rfl⟩

theorem nodup_indices {n : ℕ} (hn : n < 2 ^ 64) : ((List.range n).map UInt64.ofNat).Nodup := by
  refine (List.nodup_map_iff_inj_on List.nodup_range).mpr ?_
  intro i hi j hj hij
  rw [List.mem_range] at hi hj
  have hnat := congrArg UInt64.toNat hij
  rwa [UInt64.toNat_ofNat_of_lt' (hi.trans hn), UInt64.toNat_ofNat_of_lt' (hj.trans hn)] at hnat

/-- With one transaction stored, fewer than `n` others make `n` with it. -/
theorem exists_fewer {f : UInt64 → P.Transaction}
    (hdistinct : Function.Injective fun n => P.digest (f n)) (d : P.TransactionDigest) {n : ℕ}
    (hn : n < 2 ^ 64) :
    ∃ transactions : List P.Transaction, transactions.length ≤ n - 1 ∧
      n ≤ (insert d (transactions.map P.digest).toFinset).card := by
  have hindices := nodup_indices hn
  let others := ((List.range n).map UInt64.ofNat).filter fun i => P.digest (f i) != d
  have hothers : others.map (fun i => P.digest (f i)) =
      (((List.range n).map UInt64.ofNat).map fun i => P.digest (f i)).erase d := by
    rw [(hindices.map hdistinct).erase_eq_filter, List.filter_map]
    rfl
  have hlength : n - 1 ≤ others.length := by
    have herase := congrArg List.length hothers
    rw [List.length_map, List.length_erase, List.length_map, List.length_map,
      List.length_range] at herase
    split at herase <;> omega
  refine ⟨(others.take (n - 1)).map f, by simp, ?_⟩
  have hdigests : ((others.take (n - 1)).map f).map P.digest =
      (others.take (n - 1)).map fun i => P.digest (f i) := List.map_map
  have hnodup : ((others.take (n - 1)).map fun i => P.digest (f i)).Nodup :=
    ((hindices.filter _).sublist (List.take_sublist _ _)).map hdistinct
  have habsent : d ∉ ((others.take (n - 1)).map fun i => P.digest (f i)).toFinset := by
    simp only [List.mem_toFinset, List.mem_map, not_exists, not_and]
    intro i hi heq
    have hne := (List.mem_filter.mp (List.mem_of_mem_take hi)).2
    simp [heq] at hne
  rw [hdigests, Finset.card_insert_of_notMem habsent, List.toFinset_card_of_nodup hnodup,
    List.length_map, List.length_take]
  omega

/-- A download with something stored can be completed by fewer answers than it waits for. -/
theorem exists_early_completion (checks : OverflowChecks)
    (hmany : ∃ f : UInt64 → P.Transaction, Function.Injective fun n => P.digest (f n))
    (hordered : OrderedRange fromSequence toSequence)
    (hstate : s.state = .downloadingTransactions fromSequence toSequence startedAt)
    (hstored : s.downloadedTransactions ≠ ∅) (peer : P.PeerId) :
    ∃ calls t, (syncMachine P checks).Run s calls t ∧ (∀ c ∈ calls, c.event.Continues) ∧
      ¬ CompletesOnOwn (toSequence.toNat - fromSequence.toNat + 1) calls := by
  obtain ⟨f, hdistinct⟩ := hmany
  obtain ⟨d, hd⟩ := HashMap.exists_mem_of_ne_empty hstored
  obtain ⟨transactions, hfewer, henough⟩ := exists_fewer hdistinct d hordered.2
  have hfiled : ∀ k ∈ insert d (transactions.map P.digest).toFinset,
      k ∈ storeTransactions transactions s.downloadedTransactions := by
    intro k hk
    rw [storeTransactions, KeyedStore.mem_store]
    rcases Finset.mem_insert.mp hk with rfl | hk
    · exact .inr hd
    · exact .inl (List.mem_map.mp (List.mem_toFinset.mp hk))
  have hstep := SyncStep.transactionsComplete s transactions peer (.stored P.Transaction) _ _ _ _
    hstate (expectedCount_of_ordered checks hordered)
    (henough.trans (HashMap.card_le_len hfiled))
  have hmakes := (syncMachine_makes_iff (c := ⟨_, _, _, _⟩)).mpr hstep
  refine ⟨_, _, .call _ .start hmakes, ?_, ?_⟩
  · intro c hc
    obtain rfl := List.mem_singleton.mp hc
    trivial
  · intro hown
    have hcount := hown [] _ [] rfl ⟨_, List.mem_singleton.mpr rfl⟩ (by simp)
    have hcard := (List.toFinset_card_le (transactions.map P.digest)).trans_eq
      (List.length_map P.digest)
    simp only [receivedDigests, List.nil_append, List.flatMap_singleton,
      SyncEvent.transactions] at hcount
    omega

/-- A download counts its own answers only, whatever answers come in, exactly when nothing is
stored at its start. -/
theorem completes_on_own_iff
    (hmany : ∃ f : UInt64 → P.Transaction, Function.Injective fun n => P.digest (f n))
    {peer : P.PeerId} {requestedAt : Instant} (hle : fromSequence ≤ toSequence)
    (hlast : toSequence.toNat < 2 ^ 64 - 1)
    (hstart : s.startTransactionDownload checks fromSequence toSequence peer startedAt
      requestedAt = some (.ok (), t)) :
    (∀ calls u, (syncMachine P checks).Run t calls u → (∀ c ∈ calls, c.event.Continues) →
        CompletesOnOwn (toSequence.toNat - fromSequence.toNat + 1) calls) ↔
      s.downloadedTransactions = ∅ := by
  obtain ⟨hstate, hstore⟩ := started hstart
  have hordered : OrderedRange fromSequence toSequence := ⟨hle, by omega⟩
  rw [← hstore]
  constructor
  · intro hown
    by_contra hstored
    obtain ⟨calls, u, hrun, hcontinues, hearly⟩ :=
      exists_early_completion checks hmany hordered hstate hstored peer
    exact hearly (hown calls u hrun hcontinues)
  · intro hempty calls u hrun hcontinues before c after hcalls hcompletes hopen
    obtain ⟨hbefore, hmakes⟩ := hrun.split hcalls
    have hstarted : Awaits fromSequence toSequence startedAt [] t :=
      ⟨.inl hstate, by simp [hempty, receivedDigests]⟩
    have hawaits := hstarted.run hbefore
      (fun c' hc' => hcontinues c' (hcalls ▸ List.mem_append_left _ hc')) hopen
    exact hawaits.completed hordered hmakes hcompletes

/-- A new machine has nothing stored, so that its first download waits for two answers. -/
theorem completes_on_own_plain :
    ∃ t, startTransactionDownload (P := .plain) .on 1 2 0 0 0 (withConfig 30 10) =
        some (.ok (), t) ∧
      ∀ calls u, (syncMachine .plain .on).Run t calls u → (∀ c ∈ calls, c.event.Continues) →
        CompletesOnOwn 2 calls := by
  have hmany : ∃ f : UInt64 → ℕ, Function.Injective fun n => id (f n) :=
    ⟨UInt64.toNat, fun _ _ h => UInt64.toNat_inj.mp h⟩
  have hle : (1 : UInt64) ≤ 2 := by decide
  have hlast : (2 : UInt64).toNat < 2 ^ 64 - 1 := by decide
  have hstart : startTransactionDownload (P := .plain) .on 1 2 0 0 0 (withConfig 30 10) =
    some (.ok (), _) := rfl
  exact ⟨_, hstart, (completes_on_own_iff hmany hle hlast hstart).mpr rfl⟩

/-- A transaction that came in unasked completes a download of two with one answer. -/
theorem unsolicited_transaction_completes :
    ∃ history s t calls u, (syncMachine .plain .on).Run (withConfig 30 10) history s ∧
      startTransactionDownload (P := .plain) .on 1 2 0 0 0 s = some (.ok (), t) ∧
      (syncMachine .plain .on).Run t calls u ∧ (∀ c ∈ calls, c.event.Continues) ∧
      calls.flatMap (·.result.emitted) = [.applyTransactions [8, 7]] ∧
      receivedDigests calls = {8} ∧ ¬ CompletesOnOwn 2 calls := by
  have hreach := (Machine.Run.start (M := syncMachine .plain .on)
    (s := withConfig 30 10)).of_step (e := .handleTransactions [7] 0 (.stored ℕ)) rfl
  refine ⟨_, _, _, _, _, hreach, rfl, Machine.Run.start.of_step
    (e := .handleTransactions [8] 0 (.stored ℕ)) rfl, ?_, rfl, rfl, ?_⟩
  · intro c hc
    obtain rfl := List.mem_singleton.mp hc
    trivial
  · intro hown
    have hcount := hown [] _ [] rfl ⟨_, List.mem_singleton.mpr rfl⟩ (by simp)
    exact absurd hcount (by decide)

end SilverNetwork
