import SilverNetwork.Verification.Sync.Semantics

/-! Whether a download has a request outstanding that can still time out. One lemma says
which calls keep it so; the run rule for exact step conditions extends it to runs. -/

namespace SilverNetwork

open StateSync

variable {P : Platform} {checks : OverflowChecks}

namespace StateSync

/-- A transaction request for the given range is pending. -/
def RequestedRange (s : StateSync P) (fromSequence toSequence : UInt64) : Prop :=
  ∃ id request, s.pendingTransactionRequests.lookup id = some request ∧
    request.fromSequence = fromSequence ∧ request.toSequence = toSequence

/-- A download waits for a pending request of its own. -/
def Outstanding (s : StateSync P) : Prop :=
  match s.state with
  | .downloadingSnapshot target _ => target ∈ s.pendingSnapshotRequests
  | .downloadingTransactions fromSequence toSequence _ =>
      s.RequestedRange fromSequence toSequence
  | _ => True

/-- The call does not enter a download without a request for it. -/
def KeepsOutstanding (s : StateSync P) : SyncEvent P → Prop
  | .startSnapshotDownload target _ _ _ =>
      s.isSyncing = true ∨ s.pendingSnapshotRequests.len < s.maxConcurrentRequests.toNat ∨
        target ∈ s.pendingSnapshotRequests
  | .startTransactionDownload fromSequence toSequence _ _ _ =>
      s.pendingTransactionRequests.len < s.maxConcurrentRequests.toNat ∨
        s.RequestedRange fromSequence toSequence
  | .completeSnapshotVerification sequence true _ =>
      ∀ pending, s.pendingSnapshots.lookup sequence = some pending →
        (∀ d ∈ P.transactions pending.snapshot, d ∈ s.downloadedTransactions) ∨
          s.RequestedRange sequence sequence
  | _ => True

theorem RequestedRange.insert (s : StateSync P) (id : TransactionRequestId)
    (request : TransactionRequest P) :
    RequestedRange
      { s with pendingTransactionRequests := s.pendingTransactionRequests.insert id request }
      request.fromSequence request.toSequence :=
  ⟨id, request, AList.lookup_insert _, rfl, rfl⟩

/-- A reissued request is still a request for the same range. -/
theorem RequestedRange.sweep {s : StateSync P} {readings : TimeoutReadings P}
    (hkept : (s.sweepTransactionRequests readings).abandoned = [])
    {fromSequence toSequence : UInt64} (h : s.RequestedRange fromSequence toSequence) :
    (s.handleTimeouts readings).2.RequestedRange fromSequence toSequence := by
  obtain ⟨id, request, hl, hfrom, hto⟩ := h
  rcases RetryTable.sweep_lookup_of_abandoned_eq_nil hkept hl with hsame | hreissued
  · exact ⟨id, request, hsame, hfrom, hto⟩
  · exact ⟨id, _, hreissued, hfrom, hto⟩

/-- Timeouts either give up the download or keep its request. -/
theorem Outstanding.handleTimeouts {s : StateSync P} (h : s.Outstanding)
    (readings : TimeoutReadings P) : (s.handleTimeouts readings).2.Outstanding := by
  by_cases hkept : (s.sweepSnapshotRequests readings).abandoned = [] ∧
      (s.sweepTransactionRequests readings).abandoned = []
  · have hstate : (s.handleTimeouts readings).2.state = s.state := if_pos hkept
    unfold Outstanding at h ⊢
    rw [hstate]
    split
    · rename_i target startedAt hs
      rw [hs] at h
      obtain ⟨request, hl⟩ := HashMap.mem_iff_exists_lookup.mp h
      apply HashMap.mem_iff_exists_lookup.mpr
      rcases RetryTable.sweep_lookup_of_abandoned_eq_nil hkept.1 hl with hsame | hreissued
      · exact ⟨_, hsame⟩
      · exact ⟨_, hreissued⟩
    · rename_i fromSequence toSequence startedAt hs
      rw [hs] at h
      exact RequestedRange.sweep hkept.2 h
    · trivial
  · have hstate : (s.handleTimeouts readings).2.state = .idle := if_neg hkept
    rw [Outstanding, hstate]
    trivial

end StateSync

theorem SyncStep.outstanding_iff {s t : StateSync P} {e : SyncEvent P} {r : SyncResult P}
    (hstep : SyncStep checks s e r t) (h : s.Outstanding) :
    t.Outstanding ↔ s.KeepsOutstanding e := by
  cases hstep with
  | alreadySyncing _ _ _ _ hsync => simp [KeepsOutstanding, hsync, h]
  | snapshotLimit _ _ _ _ hsync hfull =>
      simp [Outstanding, KeepsOutstanding, hsync, Nat.not_lt.mpr hfull]
  | snapshotRequested _ _ _ _ hsync hroom => simp [Outstanding, KeepsOutstanding, hroom]
  | snapshotUnknown _ _ hnone => simp [KeepsOutstanding, hnone, h]
  | snapshotComplete _ _ _ hsome hmissing =>
      simp [Outstanding, KeepsOutstanding, hsome, ← missingTransactions_eq_nil_iff, hmissing]
  | snapshotIncomplete _ _ _ hsome hmissing =>
      simp [Outstanding, KeepsOutstanding, hsome, ← missingTransactions_eq_nil_iff, hmissing,
        RequestedRange]
  | transactionLimit _ _ _ _ _ hfull =>
      simp [Outstanding, KeepsOutstanding, Nat.not_lt.mpr hfull, RequestedRange]
  | transactionsRequested fromSequence toSequence peer _ t₂ _ hroom =>
      have hnew := RequestedRange.insert s s.nextRequestId
        ⟨s.nextRequestId, fromSequence, toSequence, peer, t₂, 0⟩
      simp only [KeepsOutstanding, hroom, true_or, iff_true]
      exact hnew
  | transactionsPartial => exact iff_of_true h trivial
  | transactionsUnsolicited => exact iff_of_true h trivial
  | timeoutsHandled readings => exact iff_of_true (h.handleTimeouts readings) trivial
  | _ => exact iff_of_true trivial trivial

/-- Every download of a run has its own request outstanding in every state reached exactly
when no call of the run enters a download without one. -/
theorem downloads_outstanding_iff {timeout : Duration} {maxConcurrentRequests : UInt64}
    {calls : List (SyncCall P)} {s : StateSync P}
    (h : (syncMachine P checks).Run (withConfig timeout maxConcurrentRequests) calls s) :
    (∀ c ∈ calls, c.post.Outstanding) ↔ ∀ c ∈ calls, c.pre.KeepsOutstanding c.event := by
  refine h.forall_post_iff (I := Outstanding) (C := fun c => c.pre.KeepsOutstanding c.event)
    trivial ?_
  intro c hmakes hpre
  exact (syncMachine_makes_iff.mp hmakes).outstanding_iff hpre

/-- A snapshot download keeps its request while transactions come in unasked. -/
theorem downloads_outstanding_plain :
    ∃ calls s, (syncMachine .plain .on).Run (withConfig 30 10) calls s ∧
      s.state = .downloadingSnapshot 5 0 ∧ ∀ c ∈ calls, c.post.Outstanding := by
  have hrun := ((Machine.Run.start (M := syncMachine .plain .on)
    (s := withConfig 30 10)).of_step (e := .startSnapshotDownload 5 0 0 0) rfl).of_step
      (e := .handleTransactions [7] 0 (.stored ℕ)) rfl
  refine ⟨_, _, hrun, rfl, (downloads_outstanding_iff hrun).mpr ?_⟩
  intro c hc
  rcases List.mem_append.mp hc with hc | hc
  · obtain rfl := List.mem_singleton.mp hc
    exact Or.inr (Or.inl (by decide))
  · obtain rfl := List.mem_singleton.mp hc
    trivial

/-- Verifying a snapshot with a missing transaction enters a download that no request
can ever time out. -/
theorem verified_snapshot_downloads_without_request :
    ∃ calls s, (syncMachine .plain .on).Run (withConfig 30 10) calls s ∧
      s.state = .downloadingTransactions 5 5 2 ∧ s.pendingTransactionRequests = ∅ ∧
      ¬ s.Outstanding := by
  have hrun := ((Machine.Run.start (M := syncMachine .plain .on)
    (s := withConfig 30 10)).of_step (e := .handleSnapshot ⟨0, 5, [1]⟩ 0 1) rfl).of_step
      (e := .completeSnapshotVerification 5 true 2) rfl
  refine ⟨_, _, hrun, rfl, rfl, ?_⟩
  rintro ⟨id, request, hl, _⟩
  exact Option.some_ne_none _ hl.symm

end SilverNetwork
