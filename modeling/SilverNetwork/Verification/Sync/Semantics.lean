import SilverNetwork.Model.Sync

/-! Local rules of the sync machine, one for each branch of the source, with the guards
that select the branch and the whole next state. The equivalence theorem connects them
to the operations, so that an invariant is proved by cases on the rules. -/

namespace SilverNetwork

open StateSync

variable {P : Platform}

/-- The digests counted as missing are exactly those of the snapshot that are not stored. -/
theorem mem_missingTransactions {s : StateSync P} {snapshot : P.Snapshot}
    {d : P.TransactionDigest} :
    d ∈ s.missingTransactions snapshot ↔
      d ∈ P.transactions snapshot ∧ d ∉ s.downloadedTransactions := by
  rw [missingTransactions, List.mem_filter, Option.isNone_iff_eq_none, AList.lookup_eq_none]

theorem missingTransactions_eq_nil_iff {s : StateSync P} {snapshot : P.Snapshot} :
    s.missingTransactions snapshot = [] ↔
      ∀ d ∈ P.transactions snapshot, d ∈ s.downloadedTransactions := by
  simp only [List.eq_nil_iff_forall_not_mem, mem_missingTransactions, not_and, not_not]

/-- One completed call. Every rule names its branch's guards and leaves the fields it
does not mention as they were. -/
inductive SyncStep (checks : OverflowChecks) :
    StateSync P → SyncEvent P → SyncResult P → StateSync P → Prop where
  | alreadySyncing (s target peer t₁ t₂) (hsync : s.isSyncing = true) :
      SyncStep checks s (.startSnapshotDownload target peer t₁ t₂)
        (.unit (.error (.other "Already syncing"))) s
  | snapshotLimit (s target peer t₁ t₂) (hsync : s.isSyncing = false)
      (hfull : s.maxConcurrentRequests.toNat ≤ s.pendingSnapshotRequests.len) :
      SyncStep checks s (.startSnapshotDownload target peer t₁ t₂)
        (.unit (.error (.other "Too many concurrent requests")))
        { s with state := .downloadingSnapshot target t₁ }
  | snapshotRequested (s target peer t₁ t₂) (hsync : s.isSyncing = false)
      (hroom : s.pendingSnapshotRequests.len < s.maxConcurrentRequests.toNat) :
      SyncStep checks s (.startSnapshotDownload target peer t₁ t₂) (.unit (.ok ()))
        { s with
          state := .downloadingSnapshot target t₁
          pendingSnapshotRequests := s.pendingSnapshotRequests.insert target
            { sequence := target, peerId := peer, requestedAt := t₂, retries := 0 } }
  | snapshotReceived (s snapshot peer t) :
      SyncStep checks s (.handleSnapshot snapshot peer t)
        (.action (.ok (.verifySnapshot snapshot)))
        { s with
          state := .verifyingSnapshot (P.sequenceNumber snapshot)
          pendingSnapshotRequests := s.pendingSnapshotRequests.erase (P.sequenceNumber snapshot)
          pendingSnapshots := s.pendingSnapshots.insert (P.sequenceNumber snapshot)
            { snapshot, peerId := peer, receivedAt := t } }
  | snapshotRejected (s sequence t) :
      SyncStep checks s (.completeSnapshotVerification sequence false t) (.action (.ok .none))
        { s with state := .idle, pendingSnapshots := s.pendingSnapshots.erase sequence }
  | snapshotUnknown (s sequence t) (hnone : s.pendingSnapshots.lookup sequence = none) :
      SyncStep checks s (.completeSnapshotVerification sequence true t)
        (.action (.error (.other s!"Snapshot {sequence} not found"))) s
  | snapshotComplete (s sequence t pending)
      (hsome : s.pendingSnapshots.lookup sequence = some pending)
      (hmissing : s.missingTransactions pending.snapshot = []) :
      SyncStep checks s (.completeSnapshotVerification sequence true t)
        (.action (.ok (.applySnapshot pending.snapshot)))
        { s with
          state := .synced sequence
          pendingSnapshots := s.pendingSnapshots.erase sequence }
  | snapshotIncomplete (s sequence t pending)
      (hsome : s.pendingSnapshots.lookup sequence = some pending)
      (hmissing : s.missingTransactions pending.snapshot ≠ []) :
      SyncStep checks s (.completeSnapshotVerification sequence true t)
        (.action (.ok (.applySnapshot pending.snapshot)))
        { s with
          state := .downloadingTransactions sequence sequence t
          pendingSnapshots := s.pendingSnapshots.erase sequence }
  | transactionLimit (s fromSequence toSequence peer t₁ t₂)
      (hfull : s.maxConcurrentRequests.toNat ≤ s.pendingTransactionRequests.len) :
      SyncStep checks s (.startTransactionDownload fromSequence toSequence peer t₁ t₂)
        (.unit (.error (.other "Too many concurrent requests")))
        { s with state := .downloadingTransactions fromSequence toSequence t₁ }
  | transactionsRequested (s fromSequence toSequence peer t₁ t₂ next)
      (hroom : s.pendingTransactionRequests.len < s.maxConcurrentRequests.toNat)
      (hnext : checks.add s.nextRequestId 1 = some next) :
      SyncStep checks s (.startTransactionDownload fromSequence toSequence peer t₁ t₂)
        (.unit (.ok ()))
        { s with
          state := .downloadingTransactions fromSequence toSequence t₁
          nextRequestId := next
          pendingTransactionRequests := s.pendingTransactionRequests.insert s.nextRequestId
            { id := s.nextRequestId, fromSequence, toSequence, peerId := peer,
              requestedAt := t₂, retries := 0 } }
  | transactionsComplete (s transactions peer order fromSequence toSequence t expected)
      (hstate : s.state = .downloadingTransactions fromSequence toSequence t)
      (hexpected : expectedCount checks fromSequence toSequence = some expected)
      (henough : expected ≤
        (storeTransactions transactions s.downloadedTransactions).len) :
      SyncStep checks s (.handleTransactions transactions peer order)
        (.action (.ok (.applyTransactions (order.arrange
          (storeTransactions transactions s.downloadedTransactions).values))))
        { s with
          state := .applyingTransactions
            (storeTransactions transactions s.downloadedTransactions).len
          downloadedTransactions := ∅ }
  | transactionsPartial (s transactions peer order fromSequence toSequence t expected)
      (hstate : s.state = .downloadingTransactions fromSequence toSequence t)
      (hexpected : expectedCount checks fromSequence toSequence = some expected)
      (hfew : (storeTransactions transactions s.downloadedTransactions).len < expected) :
      SyncStep checks s (.handleTransactions transactions peer order) (.action (.ok .none))
        { s with downloadedTransactions :=
            storeTransactions transactions s.downloadedTransactions }
  | transactionsUnsolicited (s transactions peer order)
      (hstate : ∀ f t at_, s.state ≠ .downloadingTransactions f t at_) :
      SyncStep checks s (.handleTransactions transactions peer order) (.action (.ok .none))
        { s with downloadedTransactions :=
            storeTransactions transactions s.downloadedTransactions }
  | transactionsApplied (s sequence) :
      SyncStep checks s (.completeTransactionApplication sequence) (.unit (.ok ()))
        { s with state := .synced sequence }
  | timeoutsHandled (s readings) :
      SyncStep checks s (.handleTimeouts readings) (.actions (s.handleTimeouts readings).1)
        (s.handleTimeouts readings).2
  | resetDone (s) : SyncStep checks s .reset .nothing s.reset

theorem SyncStep.execution {checks : OverflowChecks} {s t : StateSync P} {e : SyncEvent P}
    {r : SyncResult P} (h : SyncStep checks s e r t) : syncStep checks s e = some (r, t) := by
  cases h with
  | alreadySyncing _ _ _ _ hsync => simp [syncStep, startSnapshotDownload, hsync]
  | snapshotLimit _ _ _ _ hsync hfull =>
      simp [syncStep, startSnapshotDownload, requestSnapshot, hsync, hfull]
  | snapshotRequested _ _ _ _ hsync hroom =>
      simp [syncStep, startSnapshotDownload, requestSnapshot, hsync, Nat.not_le.mpr hroom]
  | snapshotReceived => rfl
  | snapshotRejected => rfl
  | snapshotUnknown _ _ hnone => simp [syncStep, completeSnapshotVerification, hnone]
  | snapshotComplete _ _ _ hsome hmissing =>
      simp [syncStep, completeSnapshotVerification, hsome, hmissing]
  | snapshotIncomplete _ _ _ hsome hmissing =>
      simp [syncStep, completeSnapshotVerification, hsome, hmissing]
  | transactionLimit _ _ _ _ _ hfull =>
      simp [syncStep, startTransactionDownload, requestTransactions, hfull]
  | transactionsRequested _ _ _ _ _ _ hroom hnext =>
      simp [syncStep, startTransactionDownload, requestTransactions, Nat.not_le.mpr hroom, hnext]
  | transactionsComplete _ _ _ _ _ _ _ hstate hexpected henough =>
      simp [syncStep, handleTransactions, hstate, hexpected, henough]
  | transactionsPartial _ _ _ _ _ _ _ hstate hexpected hfew =>
      simp [syncStep, handleTransactions, hstate, hexpected, Nat.not_le.mpr hfew]
  | transactionsUnsolicited _ _ _ hstate =>
      simp [syncStep, handleTransactions]
  | transactionsApplied => rfl
  | timeoutsHandled => rfl
  | resetDone => rfl

theorem syncStep_rule {checks : OverflowChecks} {s t : StateSync P} {e : SyncEvent P}
    {r : SyncResult P} (h : syncStep checks s e = some (r, t)) : SyncStep checks s e r t := by
  cases e with
  | startSnapshotDownload target peer t₁ t₂ =>
      by_cases hsync : s.isSyncing
      · simp [syncStep, startSnapshotDownload, hsync] at h
        obtain ⟨rfl, rfl⟩ := h
        exact .alreadySyncing s target peer t₁ t₂ hsync
      · have hsync' : s.isSyncing = false := by simpa using hsync
        by_cases hfull : s.maxConcurrentRequests.toNat ≤ s.pendingSnapshotRequests.len
        · simp [syncStep, startSnapshotDownload, requestSnapshot, hsync, hfull] at h
          obtain ⟨rfl, rfl⟩ := h
          exact .snapshotLimit s target peer t₁ t₂ hsync' hfull
        · simp [syncStep, startSnapshotDownload, requestSnapshot, hsync, hfull] at h
          obtain ⟨rfl, rfl⟩ := h
          exact .snapshotRequested s target peer t₁ t₂ hsync' (Nat.lt_of_not_le hfull)
  | handleSnapshot snapshot peer t₁ =>
      obtain ⟨rfl, rfl⟩ := Prod.mk.inj (Option.some.inj h)
      exact .snapshotReceived s snapshot peer t₁
  | completeSnapshotVerification sequence valid t₁ =>
      cases valid with
      | false =>
          obtain ⟨rfl, rfl⟩ := Prod.mk.inj (Option.some.inj h)
          exact .snapshotRejected s sequence t₁
      | true =>
          cases hl : s.pendingSnapshots.lookup sequence with
          | none =>
              simp [syncStep, completeSnapshotVerification, hl] at h
              obtain ⟨rfl, rfl⟩ := h
              exact .snapshotUnknown s sequence t₁ hl
          | some pending =>
              by_cases hm : s.missingTransactions pending.snapshot = []
              · simp [syncStep, completeSnapshotVerification, hl, hm] at h
                obtain ⟨rfl, rfl⟩ := h
                exact .snapshotComplete s sequence t₁ pending hl hm
              · simp [syncStep, completeSnapshotVerification, hl, hm] at h
                obtain ⟨rfl, rfl⟩ := h
                exact .snapshotIncomplete s sequence t₁ pending hl hm
  | startTransactionDownload fromSequence toSequence peer t₁ t₂ =>
      by_cases hfull : s.maxConcurrentRequests.toNat ≤ s.pendingTransactionRequests.len
      · simp [syncStep, startTransactionDownload, requestTransactions, hfull] at h
        obtain ⟨rfl, rfl⟩ := h
        exact .transactionLimit s fromSequence toSequence peer t₁ t₂ hfull
      · simp [syncStep, startTransactionDownload, requestTransactions, hfull] at h
        obtain ⟨next, hnext, rfl, rfl⟩ := h
        exact .transactionsRequested s fromSequence toSequence peer t₁ t₂ next
          (Nat.lt_of_not_le hfull) hnext
  | handleTransactions transactions peer order =>
      simp only [syncStep, handleTransactions] at h
      split at h
      · rename_i fromSequence toSequence t₁ hstate
        cases hexp : expectedCount checks fromSequence toSequence with
        | none => simp [hexp] at h
        | some expected =>
            by_cases hen : expected ≤ (storeTransactions transactions s.downloadedTransactions).len
            · simp [hexp, hen] at h
              obtain ⟨rfl, rfl⟩ := h
              exact .transactionsComplete s transactions peer order _ _ _ expected hstate hexp hen
            · simp [hexp, hen] at h
              obtain ⟨rfl, rfl⟩ := h
              exact .transactionsPartial s transactions peer order _ _ _ expected hstate hexp
                (Nat.lt_of_not_le hen)
      · rename_i hstate
        obtain ⟨rfl, rfl⟩ := Prod.mk.inj (Option.some.inj h)
        exact .transactionsUnsolicited s transactions peer order hstate
  | completeTransactionApplication sequence =>
      obtain ⟨rfl, rfl⟩ := Prod.mk.inj (Option.some.inj h)
      exact .transactionsApplied s sequence
  | handleTimeouts readings =>
      obtain ⟨rfl, rfl⟩ := Prod.mk.inj (Option.some.inj h)
      exact .timeoutsHandled s readings
  | reset =>
      obtain ⟨rfl, rfl⟩ := Prod.mk.inj (Option.some.inj h)
      exact .resetDone s

theorem syncStep_iff {checks : OverflowChecks} {s t : StateSync P} {e : SyncEvent P}
    {r : SyncResult P} : syncStep checks s e = some (r, t) ↔ SyncStep checks s e r t :=
  ⟨syncStep_rule, SyncStep.execution⟩

/-- The calls that the machine makes are exactly those that a rule allows. -/
theorem syncMachine_makes_iff {checks : OverflowChecks} {c : SyncCall P} :
    (syncMachine P checks).Makes c ↔ SyncStep checks c.pre c.event c.result c.post :=
  syncStep_iff

end SilverNetwork
