import SilverNetwork.Verification.Sync.Semantics

/-! The length of a requested range. A download stores its range as it is given, and computes
with it later: once for each message that comes in, and for each look at the progress. -/

namespace SilverNetwork

open StateSync

variable {P : Platform} {checks : OverflowChecks}

/-- The range runs forwards, and its length fits into 64 bits. -/
def OrderedRange (fromSequence toSequence : UInt64) : Prop :=
  fromSequence ≤ toSequence ∧ toSequence.toNat - fromSequence.toNat + 1 < 2 ^ 64

theorem expectedCount_of_ordered (checks : OverflowChecks) {fromSequence toSequence : UInt64}
    (h : OrderedRange fromSequence toSequence) : expectedCount checks fromSequence toSequence =
      some (toSequence.toNat - fromSequence.toNat + 1) := by
  obtain ⟨hle, hlength⟩ := h
  have hsub : checks.sub toSequence fromSequence = some (toSequence - fromSequence) := by
    cases checks with
    | on => exact if_pos hle
    | off => rfl
  have hdifference : (toSequence - fromSequence).toNat = toSequence.toNat - fromSequence.toNat :=
    UInt64.toNat_sub_of_le _ _ hle
  have hadd : checks.add (toSequence - fromSequence) 1 = some (toSequence - fromSequence + 1) := by
    refine OverflowChecks.add_of_lt checks ?_
    rw [hdifference]
    exact hlength
  simp only [expectedCount, Option.bind_eq_bind, hsub, Option.bind_some, hadd, Option.pure_def,
    UInt64.toNat_add, hdifference]
  exact congrArg some (Nat.mod_eq_of_lt hlength)

/-- With overflow checks on, the length is computed for no other range. -/
theorem isSome_expectedCount_iff {fromSequence toSequence : UInt64} :
    (expectedCount .on fromSequence toSequence).isSome ↔
      OrderedRange fromSequence toSequence := by
  constructor
  · intro h
    obtain ⟨count, h⟩ := Option.isSome_iff_exists.mp h
    simp only [expectedCount, Option.bind_eq_bind, Option.bind_eq_some_iff, OverflowChecks.sub,
      OverflowChecks.add, Option.ite_none_right_eq_some, Option.some.injEq] at h
    obtain ⟨_, ⟨hle, rfl⟩, _, ⟨hlength, -⟩, -⟩ := h
    rw [UInt64.toNat_sub_of_le _ _ hle] at hlength
    exact ⟨hle, hlength⟩
  · intro h
    rw [expectedCount_of_ordered .on h]
    rfl

/-! ## States -/

namespace StateSync

/-- The range of the download, if there is one, is computed with as the sequence numbers say: no
operation leaves the 64 bits, and what the progress is divided by is not zero. -/
structure RangeSafe (s : StateSync P) : Prop where
  handles : ∀ transactions peer order,
    (s.handleTransactions .on transactions peer order).isSome
  progress : (s.getProgress .on).isSome
  divisor : ∀ checks fromSequence toSequence t expected,
    s.state = .downloadingTransactions fromSequence toSequence t →
      expectedCount checks fromSequence toSequence = some expected → Binary64.round expected ≠ 0

def DownloadsOrdered (s : StateSync P) : Prop :=
  ∀ fromSequence toSequence t, s.state = .downloadingTransactions fromSequence toSequence t →
    OrderedRange fromSequence toSequence

theorem rangeSafe_iff {s : StateSync P} : s.RangeSafe ↔ s.DownloadsOrdered := by
  constructor
  · intro h fromSequence toSequence t hstate
    have hprogress := h.progress
    rw [getProgress, hstate, Option.isSome_map] at hprogress
    exact isSome_expectedCount_iff.mp hprogress
  · intro h
    refine ⟨?_, ?_, ?_⟩
    · intro transactions peer order
      unfold handleTransactions
      split
      · rename_i fromSequence toSequence t hstate
        rw [Option.isSome_map]
        exact isSome_expectedCount_iff.mpr (h fromSequence toSequence t hstate)
      · rfl
    · unfold getProgress
      split
      case h_4 fromSequence toSequence t hstate =>
        rw [Option.isSome_map]
        exact isSome_expectedCount_iff.mpr (h fromSequence toSequence t hstate)
      all_goals rfl
    · intro checks fromSequence toSequence t expected hstate hexpected
      rw [expectedCount_of_ordered checks (h fromSequence toSequence t hstate)] at hexpected
      obtain rfl := Option.some.inj hexpected
      rw [Ne, Binary64.round_eq_zero_iff]
      exact Nat.succ_ne_zero _

/-- Whatever progress is reported lies between zero and one. -/
theorem getProgress_mem (s : StateSync P) {progress : SyncProgress}
    (h : s.getProgress checks = some progress) :
    ∃ value, progress.progress = .finite value ∧ 0 ≤ value ∧ value ≤ 1 := by
  unfold getProgress at h
  split at h
  case h_4 =>
    obtain ⟨expected, -, rfl⟩ := Option.map_eq_some_iff.mp h
    exact Binary64.div_min_mem _ _ zero_le_one
  all_goals
    obtain rfl := Option.some.inj h
    exact ⟨_, rfl, by norm_num, by norm_num⟩

end StateSync

/-! ## Runs -/

namespace SyncEvent

/-- A download that the event starts has a range in order. -/
def StartsOrdered : SyncEvent P → Prop
  | .startTransactionDownload fromSequence toSequence _ _ _ =>
      OrderedRange fromSequence toSequence
  | _ => True

/-- The transactions that come in with the event. -/
def transactions : SyncEvent P → List P.Transaction
  | .handleTransactions transactions _ _ => transactions
  | _ => []

end SyncEvent

theorem orderedRange_self (sequence : UInt64) : OrderedRange sequence sequence :=
  ⟨UInt64.le_refl sequence, by simp⟩

theorem SyncStep.downloadsOrdered_iff {s t : StateSync P} {e : SyncEvent P} {r : SyncResult P}
    (hstep : SyncStep checks s e r t) (h : s.DownloadsOrdered) :
    t.DownloadsOrdered ↔ e.StartsOrdered := by
  cases hstep with
  | alreadySyncing | snapshotUnknown | transactionsPartial | transactionsUnsolicited =>
      exact iff_of_true h trivial
  | snapshotIncomplete sequence =>
      refine iff_of_true ?_ trivial
      intro fromSequence toSequence t hstate
      obtain ⟨rfl, rfl, -⟩ := SyncState.downloadingTransactions.inj hstate
      exact orderedRange_self sequence
  | transactionLimit | transactionsRequested =>
      simp [DownloadsOrdered, SyncEvent.StartsOrdered]
  | timeoutsHandled readings =>
      refine iff_of_true ?_ trivial
      intro fromSequence toSequence t hstate
      simp only [handleTimeouts] at hstate
      split at hstate
      · exact h fromSequence toSequence t hstate
      · cases hstate
  | _ => exact iff_of_true (fun _ _ _ hstate => by cases hstate) trivial

/-- A call with which no transactions come in stores nothing. -/
theorem SyncStep.stored_of_silent {s t : StateSync P} {e : SyncEvent P} {r : SyncResult P}
    (hstep : SyncStep checks s e r t) (hsilent : e.transactions = []) :
    t.downloadedTransactions = s.downloadedTransactions ∨ t.downloadedTransactions = ∅ := by
  cases hstep with
  | transactionsComplete => exact .inr rfl
  | transactionsPartial | transactionsUnsolicited =>
      obtain rfl : _ = [] := hsilent
      exact .inl rfl
  | resetDone => exact .inr rfl
  | _ => exact .inl rfl

/-- What is stored has been received. -/
theorem run_stored_received {timeout : Duration} {maxConcurrentRequests : UInt64}
    {calls : List (SyncCall P)} {s : StateSync P}
    (h : (syncMachine P checks).Run (withConfig timeout maxConcurrentRequests) calls s) :
    s.downloadedTransactions = ∅ ∨ ∃ c ∈ calls, c.event.transactions ≠ [] := by
  induction h with
  | start => exact .inl rfl
  | @call calls c _ hmakes ih =>
      by_cases hsilent : c.event.transactions = []
      · have hstored := (syncMachine_makes_iff.mp hmakes).stored_of_silent hsilent
        rcases ih with hempty | ⟨c', hc', hreceived⟩
        · rw [hempty, or_self] at hstored
          exact .inl hstored
        · exact .inr ⟨c', List.mem_append_left _ hc', hreceived⟩
      · exact .inr ⟨c, List.mem_concat_self, hsilent⟩

/-- A download of an ordered range completes only when something is stored. -/
theorem SyncStep.stored_of_applied {s t : StateSync P} {e : SyncEvent P} {r : SyncResult P}
    (hstep : SyncStep checks s e r t) (hordered : s.DownloadsOrdered)
    {applied : List P.Transaction} (hmem : .applyTransactions applied ∈ r.emitted) :
    e.transactions ≠ [] ∨ s.downloadedTransactions ≠ ∅ := by
  cases hstep with
  | transactionsComplete transactions peer order fromSequence toSequence t₁ expected hstate
      hexpected henough =>
      rw [expectedCount_of_ordered checks (hordered _ _ _ hstate)] at hexpected
      obtain rfl := Option.some.inj hexpected
      have hstored : storeTransactions transactions s.downloadedTransactions ≠ ∅ := by
        intro hempty
        rw [hempty, HashMap.len_empty] at henough
        exact Nat.not_succ_le_zero _ henough
      exact not_and_or.mp fun hnone => hstored ((KeyedStore.store_eq_empty_iff P.digest).mpr hnone)
  | timeoutsHandled => simp [SyncResult.emitted, handleTimeouts] at hmem
  | _ => simp [SyncResult.emitted] at hmem

/-- The range arithmetic of a run is safe in every state reached, and no download completes before
a transaction has been received, exactly when every download started has an ordered range. -/
theorem ranges_safe_iff {timeout : Duration} {maxConcurrentRequests : UInt64}
    {calls : List (SyncCall P)} {s : StateSync P}
    (h : (syncMachine P checks).Run (withConfig timeout maxConcurrentRequests) calls s) :
    ((∀ c ∈ calls, c.post.RangeSafe) ∧
        ∀ before c after applied, calls = before ++ c :: after →
          .applyTransactions applied ∈ c.result.emitted →
            ∃ c' ∈ before ++ [c], c'.event.transactions ≠ []) ↔
      ∀ c ∈ calls, c.event.StartsOrdered := by
  have hsafe : (∀ c ∈ calls, c.post.RangeSafe) ↔ ∀ c ∈ calls, c.event.StartsOrdered := by
    simp only [rangeSafe_iff]
    refine h.forall_post_iff (I := DownloadsOrdered) (C := fun c => c.event.StartsOrdered)
      (fun _ _ _ hstate => by cases hstate) ?_
    intro c hmakes hpre
    exact (syncMachine_makes_iff.mp hmakes).downloadsOrdered_iff hpre
  rw [hsafe]
  refine and_iff_left_of_imp ?_
  intro hstarts before c after applied hcalls hmem
  obtain ⟨hrun, hmakes⟩ := h.split hcalls
  have hc : c ∈ calls := by simp [hcalls]
  have hordered : c.pre.DownloadsOrdered := by
    refine h.invariant_pre (I := DownloadsOrdered) (fun _ _ _ hstate => by cases hstate) ?_ hc
    intro c' hc' hmakes' hpre
    exact ((syncMachine_makes_iff.mp hmakes').downloadsOrdered_iff hpre).mpr (hstarts c' hc')
  rcases (syncMachine_makes_iff.mp hmakes).stored_of_applied hordered hmem with hnow | hstored
  · exact ⟨c, List.mem_concat_self, hnow⟩
  · obtain ⟨c', hc', hreceived⟩ := (run_stored_received hrun).resolve_left hstored
    exact ⟨c', List.mem_append_left _ hc', hreceived⟩

/-- A download of three transactions that has received one. -/
theorem ranges_safe_plain :
    ∃ calls s, (syncMachine .plain .on).Run (withConfig 30 10) calls s ∧
      s.state = .downloadingTransactions 5 7 0 ∧ s.downloadedTransactions.len = 1 ∧
      ∀ c ∈ calls, c.post.RangeSafe := by
  have hrun := ((Machine.Run.start (M := syncMachine .plain .on)
    (s := withConfig 30 10)).of_step (e := .startTransactionDownload 5 7 0 0 0) rfl).of_step
      (e := .handleTransactions [7] 0 (.stored ℕ)) rfl
  refine ⟨_, _, hrun, rfl, rfl, ((ranges_safe_iff hrun).mpr ?_).1⟩
  intro c hc
  rcases List.mem_append.mp hc with hc | hc
  · obtain rfl := List.mem_singleton.mp hc
    exact ⟨by decide, by decide⟩
  · obtain rfl := List.mem_singleton.mp hc
    trivial

/-- A range that runs backwards panics with overflow checks on. Without them the range from 1 to
0 is complete at once, with no transaction received, and its progress divides by zero. -/
theorem backward_range_completes :
    (∃ calls s, (syncMachine .plain .on).Run (withConfig 30 10) calls s ∧
      calls.map (·.event) = [.startTransactionDownload 1 0 0 0 0] ∧
      handleTransactions (P := .plain) .on [] 0 (.stored ℕ) s = none ∧ s.getProgress .on = none) ∧
    ∃ calls s, (syncMachine .plain .off).Run (withConfig 30 10) calls s ∧
      calls.map (·.event) = [.startTransactionDownload 1 0 0 0 0] ∧
      expectedCount .off 1 0 = some 0 ∧
      ∃ t, handleTransactions (P := .plain) .off [] 0 (.stored ℕ) s =
        some (.ok (.applyTransactions []), t) := by
  have hon := (Machine.Run.start (M := syncMachine .plain .on)
    (s := withConfig 30 10)).of_step (e := .startTransactionDownload 1 0 0 0 0) rfl
  have hoff := (Machine.Run.start (M := syncMachine .plain .off)
    (s := withConfig 30 10)).of_step (e := .startTransactionDownload 1 0 0 0 0) rfl
  exact ⟨⟨_, _, hon, rfl, rfl, rfl⟩, _, _, hoff, rfl, rfl, _, rfl⟩

end SilverNetwork
