import SilverNetwork.Verification.Sync.Bookkeeping

/-! The names of the requests. Two machines that differ by a shift of all transaction request
ids, and in the order of their maps' entries, answer the same calls in the same way. -/

namespace SilverNetwork

open StateSync

variable {P : Platform} {checks : OverflowChecks} {offset : UInt64}

/-- The same result, up to the order of the transactions applied or the requests retried. -/
inductive SyncResult.SameUpToOrder : SyncResult P → SyncResult P → Prop where
  | same (r) : SameUpToOrder r r
  | applied {applied applied' : List P.Transaction} (h : applied.Perm applied') :
      SameUpToOrder (.action (.ok (.applyTransactions applied)))
        (.action (.ok (.applyTransactions applied')))
  | retried {emitted emitted' : List (SyncAction P)} (h : emitted.Perm emitted') :
      SameUpToOrder (.actions emitted) (.actions emitted')

/-- The same call with the same arguments in any traversal order. The clock readings of
`handle_timeouts` are the same too, each for the request it is made at. -/
inductive SyncEvent.SameCallShifted (offset : UInt64) : SyncEvent P → SyncEvent P → Prop where
  | same (e) (h : ∀ readings, e ≠ .handleTimeouts readings) : SameCallShifted offset e e
  | transactions (transactions peer order order') :
      SameCallShifted offset (.handleTransactions transactions peer order)
        (.handleTransactions transactions peer order')
  | timeouts (readings readings' : TimeoutReadings P) (hnow : readings.now = readings'.now)
      (hsnapshots : readings.snapshotReissuedAt = readings'.snapshotReissuedAt)
      (htransactions : ∀ id, readings'.transactionReissuedAt (id + offset) =
        readings.transactionReissuedAt id) :
      SameCallShifted offset (.handleTimeouts readings) (.handleTimeouts readings')

def TransactionRequest.shift (offset : UInt64) (request : TransactionRequest P) :
    TransactionRequest P := { request with id := request.id + offset }

/-- The same machine, up to a shift of the request ids and the order of the entries. -/
structure StateSync.SameUpToIds (offset : UInt64) (s s' : StateSync P) : Prop where
  state : s.state = s'.state
  snapshotRequests : HashMap.SameEntries s.pendingSnapshotRequests s'.pendingSnapshotRequests
  transactionRequests :
    HashMap.RenamedEntries (Equiv.addRight offset) (TransactionRequest.shift offset)
      s.pendingTransactionRequests s'.pendingTransactionRequests
  snapshots : HashMap.SameEntries s.pendingSnapshots s'.pendingSnapshots
  transactions : HashMap.SameEntries s.downloadedTransactions s'.downloadedTransactions
  timeout : s.timeout = s'.timeout
  limit : s.maxConcurrentRequests = s'.maxConcurrentRequests
  nextId : s.nextRequestId + offset = s'.nextRequestId

theorem SyncEvent.SameCallShifted.of_transactions {transactions : List P.Transaction}
    {peer : P.PeerId} {order : Enumeration P.Transaction} {e : SyncEvent P}
    (h : SameCallShifted offset (.handleTransactions transactions peer order) e) :
    ∃ order', e = .handleTransactions transactions peer order' := by
  cases h with
  | same => exact ⟨order, rfl⟩
  | transactions => exact ⟨_, rfl⟩

theorem TransactionRequest.rewrites_shift (offset : UInt64) :
    RetryTable.Rewrites (TransactionRequest.shift (P := P) offset) :=
  ⟨fun _ => rfl, fun _ => rfl, fun _ _ => rfl⟩

/-! ## One call -/

namespace StateSync.SameUpToIds

variable {s s' : StateSync P}

theorem isSyncing (h : s.SameUpToIds offset s') : s.isSyncing = s'.isSyncing := by
  simp only [StateSync.isSyncing, h.state]

theorem missing (h : s.SameUpToIds offset s') (snapshot : P.Snapshot) :
    s.missingTransactions snapshot = s'.missingTransactions snapshot := by
  simp only [missingTransactions, h.transactions.lookup_eq]

theorem stored (h : s.SameUpToIds offset s') (transactions : List P.Transaction) :
    HashMap.SameEntries (storeTransactions transactions s.downloadedTransactions)
      (storeTransactions transactions s'.downloadedTransactions) :=
  KeyedStore.store_sameEntries P.digest h.transactions transactions

/-- A request that both machines issue lies under the next id of each. -/
theorem requested (h : s.SameUpToIds offset s') (request : TransactionRequest P)
    (hid : request.id = s.nextRequestId) :
    HashMap.RenamedEntries (Equiv.addRight offset) (TransactionRequest.shift offset)
      (s.pendingTransactionRequests.insert s.nextRequestId request)
      (s'.pendingTransactionRequests.insert s'.nextRequestId
        { request with id := s'.nextRequestId }) := by
  have hkey : Equiv.addRight offset s.nextRequestId = s'.nextRequestId := h.nextId
  have hshift : request.shift offset = { request with id := s'.nextRequestId } := by
    rw [TransactionRequest.shift, hid, h.nextId]
  have hinsert := h.transactionRequests.insert s.nextRequestId request
  rwa [hkey, hshift] at hinsert

/-- The progress reported does not depend on the ids. -/
theorem getProgress (h : s.SameUpToIds offset s') :
    s.getProgress checks = s'.getProgress checks := by
  unfold StateSync.getProgress
  rw [← h.state, h.snapshotRequests.len_eq, h.transactionRequests.len_eq, h.transactions.len_eq]

/-- Both sweeps treat the same requests alike, so the same ones are sent again. -/
theorem handleTimeouts (h : s.SameUpToIds offset s') {readings readings' : TimeoutReadings P}
    (hnow : readings.now = readings'.now)
    (hreissuedAt : readings.snapshotReissuedAt = readings'.snapshotReissuedAt)
    (hshifted : ∀ id, readings'.transactionReissuedAt (id + offset) =
      readings.transactionReissuedAt id) :
    (s.handleTimeouts readings).1.Perm (s'.handleTimeouts readings').1 ∧
      (s.handleTimeouts readings).2.SameUpToIds offset (s'.handleTimeouts readings').2 := by
  have hsnapshots := h.snapshotRequests
  have htransactions := h.transactionRequests
  have hrewrites := TransactionRequest.rewrites_shift (P := P) offset
  have habandoned := and_congr
    (RetryTable.sweep_abandoned_eq_nil_congr hsnapshots maxRetries s.timeout readings.now
      readings.snapshotReissuedAt readings.snapshotOrder readings'.snapshotOrder)
    (RetryTable.sweep_abandoned_eq_nil_renamed readings.transactionReissuedAt
      readings'.transactionReissuedAt hrewrites htransactions maxRetries s.timeout readings.now
      readings.transactionOrder readings'.transactionOrder)
  have hretried := (RetryTable.sweep_retried_renamed_perm hrewrites htransactions hshifted
    maxRetries s.timeout readings.now readings.transactionOrder readings'.transactionOrder).map
      fun e => SyncAction.retryTransactionRequest e.2.fromSequence e.2.toSequence e.2.peerId
  rw [List.map_map] at hretried
  simp only [StateSync.handleTimeouts, sweepSnapshotRequests, sweepTransactionRequests,
    ← h.timeout, ← hnow, ← hreissuedAt]
  refine ⟨?_, ?_⟩
  · exact ((RetryTable.sweep_retried_perm hsnapshots _ _ _ _ _ _).map _).append hretried
  · refine ⟨?_, ?_, ?_, h.snapshots, h.transactions, rfl, h.limit, h.nextId⟩
    · simp only [habandoned, h.state]
    · exact RetryTable.sweep_table_sameEntries hsnapshots _ _ _ _ _ _
    · exact RetryTable.sweep_table_renamed hrewrites htransactions hshifted _ _ _ _ _

end StateSync.SameUpToIds

/-- Whatever a call does, the same call on a machine with shifted ids can do likewise, as long
as that machine has an id left for a request that the call issues. -/
theorem SyncStep.renamed {s s' t : StateSync P} {e e' : SyncEvent P} {r : SyncResult P}
    (hstep : SyncStep checks s e r t) (h : s.SameUpToIds offset s')
    (he : e.SameCallShifted offset e')
    (hroom : issuedBy ⟨s, e, r, t⟩ ≠ [] → (checks.add s.nextRequestId 1).isSome →
      (checks.add s'.nextRequestId 1).isSome) :
    ∃ r' t', SyncStep checks s' e' r' t' ∧ r.SameUpToOrder r' ∧ t.SameUpToIds offset t' := by
  cases hstep with
  | alreadySyncing target peer t₁ t₂ hsync =>
      cases he
      rw [h.isSyncing] at hsync
      exact ⟨_, _, .alreadySyncing s' target peer t₁ t₂ hsync, .same _, h⟩
  | snapshotLimit target peer t₁ t₂ hsync hfull =>
      cases he
      rw [h.isSyncing] at hsync
      rw [h.limit, h.snapshotRequests.len_eq] at hfull
      exact ⟨_, _, .snapshotLimit s' target peer t₁ t₂ hsync hfull, .same _,
        { h with state := rfl }⟩
  | snapshotRequested target peer t₁ t₂ hsync hfree =>
      cases he
      rw [h.isSyncing] at hsync
      rw [h.limit, h.snapshotRequests.len_eq] at hfree
      exact ⟨_, _, .snapshotRequested s' target peer t₁ t₂ hsync hfree, .same _,
        { h with state := rfl, snapshotRequests := h.snapshotRequests.insert _ _ }⟩
  | snapshotReceived snapshot peer t₁ =>
      cases he
      exact ⟨_, _, .snapshotReceived s' snapshot peer t₁, .same _,
        { h with
          state := rfl
          snapshotRequests := h.snapshotRequests.erase _
          snapshots := h.snapshots.insert _ _ }⟩
  | snapshotRejected sequence t₁ =>
      cases he
      exact ⟨_, _, .snapshotRejected s' sequence t₁, .same _,
        { h with state := rfl, snapshots := h.snapshots.erase _ }⟩
  | snapshotUnknown sequence t₁ hnone =>
      cases he
      rw [h.snapshots.lookup_eq] at hnone
      exact ⟨_, _, .snapshotUnknown s' sequence t₁ hnone, .same _, h⟩
  | snapshotComplete sequence t₁ pending hsome hmissing =>
      cases he
      rw [h.snapshots.lookup_eq] at hsome
      rw [h.missing] at hmissing
      exact ⟨_, _, .snapshotComplete s' sequence t₁ pending hsome hmissing, .same _,
        { h with state := rfl, snapshots := h.snapshots.erase _ }⟩
  | snapshotIncomplete sequence t₁ pending hsome hmissing =>
      cases he
      rw [h.snapshots.lookup_eq] at hsome
      rw [h.missing] at hmissing
      exact ⟨_, _, .snapshotIncomplete s' sequence t₁ pending hsome hmissing, .same _,
        { h with state := rfl, snapshots := h.snapshots.erase _ }⟩
  | transactionLimit fromSequence toSequence peer t₁ t₂ hfull =>
      cases he
      rw [h.limit, h.transactionRequests.len_eq] at hfull
      exact ⟨_, _, .transactionLimit s' fromSequence toSequence peer t₁ t₂ hfull, .same _,
        { h with state := rfl }⟩
  | transactionsRequested fromSequence toSequence peer t₁ t₂ next hfree hnext =>
      cases he
      rw [h.limit, h.transactionRequests.len_eq] at hfree
      obtain ⟨next', hnext'⟩ := Option.isSome_iff_exists.mp
        (hroom (List.cons_ne_nil _ _) (Option.isSome_iff_exists.mpr ⟨next, hnext⟩))
      refine ⟨_, _,
        .transactionsRequested s' fromSequence toSequence peer t₁ t₂ next' hfree hnext',
        .same _, { h with state := rfl, transactionRequests := ?_, nextId := ?_ }⟩
      · exact h.requested ⟨s.nextRequestId, fromSequence, toSequence, peer, t₂, 0⟩ rfl
      · rw [OverflowChecks.add_eq_some hnext, OverflowChecks.add_eq_some hnext', ← h.nextId]
        exact add_right_comm _ _ _
  | transactionsComplete transactions peer order fromSequence toSequence t₁ expected hstate
      hexpected henough =>
      obtain ⟨order', rfl⟩ := he.of_transactions
      have hstored := h.stored transactions
      have happlied := ((order.perm _).trans hstored.values_perm).trans (order'.perm _).symm
      rw [h.state] at hstate
      rw [hstored.len_eq] at henough
      refine ⟨_, _, .transactionsComplete s' transactions peer order' fromSequence toSequence t₁
        expected hstate hexpected henough, .applied happlied,
        { h with state := ?_, transactions := .refl _ }⟩
      exact congrArg SyncState.applyingTransactions hstored.len_eq
  | transactionsPartial transactions peer order fromSequence toSequence t₁ expected hstate
      hexpected hfew =>
      obtain ⟨order', rfl⟩ := he.of_transactions
      rw [h.state] at hstate
      rw [(h.stored transactions).len_eq] at hfew
      exact ⟨_, _, .transactionsPartial s' transactions peer order' fromSequence toSequence t₁
        expected hstate hexpected hfew, .same _, { h with transactions := h.stored transactions }⟩
  | transactionsUnsolicited transactions peer order hstate =>
      obtain ⟨order', rfl⟩ := he.of_transactions
      rw [h.state] at hstate
      exact ⟨_, _, .transactionsUnsolicited s' transactions peer order' hstate, .same _,
        { h with transactions := h.stored transactions }⟩
  | transactionsApplied sequence =>
      cases he
      exact ⟨_, _, .transactionsApplied s' sequence, .same _, { h with state := rfl }⟩
  | timeoutsHandled readings =>
      cases he with
      | same _ hother => exact absurd rfl (hother readings)
      | timeouts _ readings' hnow hreissuedAt hshifted =>
          obtain ⟨hactions, hstates⟩ := h.handleTimeouts hnow hreissuedAt hshifted
          exact ⟨_, _, .timeoutsHandled s' _, .retried hactions, hstates⟩
  | resetDone =>
      cases he
      exact ⟨_, _, .resetDone s', .same _,
        ⟨rfl, .refl _, .empty, .refl _, .refl _, h.timeout, h.limit, h.nextId⟩⟩

end SilverNetwork
