import SilverNetwork.Verification.Sync.Semantics

/-! What an expired request may do to the phase. A request that has used up its retries
is given up, and giving up any request at all sends the machine to `Idle`. -/

namespace SilverNetwork

open StateSync

variable {P : Platform} {checks : OverflowChecks}

namespace StateSync

/-- The snapshot request for `sequence` has expired after its last retry. -/
def GivesUpSnapshot (s : StateSync P) (now : Instant) (sequence : UInt64) : Prop :=
  ∃ request, s.pendingSnapshotRequests.lookup sequence = some request ∧
    RetryTable.Expired s.timeout now request ∧ request.retries = maxRetries

/-- The transaction request has expired after its last retry, and is for the given range. -/
def GivesUpTransactions (s : StateSync P) (now : Instant) (id : TransactionRequestId)
    (fromSequence toSequence : UInt64) : Prop :=
  ∃ request, s.pendingTransactionRequests.lookup id = some request ∧
    request.fromSequence = fromSequence ∧ request.toSequence = toSequence ∧
    RetryTable.Expired s.timeout now request ∧ request.retries = maxRetries

def GivesUpAny (s : StateSync P) (now : Instant) : Prop :=
  (∃ sequence, s.GivesUpSnapshot now sequence) ∨
    ∃ id fromSequence toSequence, s.GivesUpTransactions now id fromSequence toSequence

end StateSync

/-- The key under which a download has filed its request. -/
inductive PhaseRequest where
  | snapshot (sequence : UInt64)
  | transactions (id : TransactionRequestId)

/-- The request that the phase has issued itself, after a call and before it. A phase that begins
without one has none, whatever the phases before it have left pending. -/
def PhaseRequest.after (own : Option PhaseRequest) (c : SyncCall P) : Option PhaseRequest :=
  match c.event, c.result with
  | .startSnapshotDownload target _ _ _, .unit (.ok _) => some (.snapshot target)
  -- an error leaves the phase alone only if another is under way
  | .startSnapshotDownload _ _ _ _, _ => if c.pre.isSyncing then own else none
  | .startTransactionDownload _ _ _ _ _, .unit (.ok _) => some (.transactions c.pre.nextRequestId)
  | .handleTransactions _ _ _, _ | .handleTimeouts _, _ => own
  | .completeSnapshotVerification _ _ _, .action (.error _) => own
  | _, _ => none

/-- The request of the phase that the calls of a new machine have led to. -/
def phaseRequest (calls : List (SyncCall P)) : Option PhaseRequest :=
  calls.foldl PhaseRequest.after none

namespace StateSync

/-- The request given up is the one that the current phase waits for. -/
def GivesUpOwn (s : StateSync P) (own : Option PhaseRequest) (now : Instant) : Prop :=
  match s.state, own with
  | .downloadingSnapshot target _, some (.snapshot sequence) =>
      sequence = target ∧ s.GivesUpSnapshot now sequence
  | .downloadingTransactions fromSequence toSequence _, some (.transactions id) =>
      s.GivesUpTransactions now id fromSequence toSequence
  | _, _ => False

/-- No request of either kind has been retried more than the limit allows. -/
structure RetriesBounded (s : StateSync P) : Prop where
  snapshots : RetryTable.Within maxRetries s.pendingSnapshotRequests
  transactions : RetryTable.Within maxRetries s.pendingTransactionRequests

end StateSync

/-! ## Retries along a run -/

theorem SyncStep.retriesBounded {s t : StateSync P} {e : SyncEvent P} {r : SyncResult P}
    (hstep : SyncStep checks s e r t) (h : s.RetriesBounded) : t.RetriesBounded := by
  cases hstep with
  | snapshotRequested => exact ⟨h.snapshots.insert (Nat.zero_le _), h.transactions⟩
  | snapshotReceived => exact ⟨h.snapshots.erase _, h.transactions⟩
  | transactionsRequested => exact ⟨h.snapshots, h.transactions.insert (Nat.zero_le _)⟩
  | timeoutsHandled readings =>
      refine ⟨?_, ?_⟩
      · exact h.snapshots.sweep s.timeout readings.now _ readings.snapshotOrder
      · exact h.transactions.sweep s.timeout readings.now _ readings.transactionOrder
  | resetDone => exact ⟨RetryTable.within_empty, RetryTable.within_empty⟩
  | _ => exact ⟨h.snapshots, h.transactions⟩

theorem run_retriesBounded {timeout : Duration} {maxConcurrentRequests : UInt64}
    {calls : List (SyncCall P)} {s : StateSync P}
    (h : (syncMachine P checks).Run (withConfig timeout maxConcurrentRequests) calls s) :
    s.RetriesBounded := by
  refine h.invariant ⟨RetryTable.within_empty, RetryTable.within_empty⟩ ?_
  intro c hmakes hpre
  exact (syncMachine_makes_iff.mp hmakes).retriesBounded hpre

/-! ## The requests given up -/

namespace StateSync

theorem RetriesBounded.snapshots_kept_iff {s : StateSync P} (h : s.RetriesBounded)
    (readings : TimeoutReadings P) :
    (s.sweepSnapshotRequests readings).abandoned = [] ↔
      ¬ ∃ sequence, s.GivesUpSnapshot readings.now sequence := by
  rw [sweepSnapshotRequests, RetryTable.sweep_abandoned_eq_nil_iff]
  simp only [GivesUpSnapshot, not_exists, not_and]
  refine forall_congr' fun sequence => forall_congr' fun request => forall_congr' fun hl =>
    forall_congr' fun _ => ?_
  have hle : request.retries ≤ maxRetries := h.snapshots sequence request hl
  change request.retries < maxRetries ↔ _
  omega

theorem RetriesBounded.transactions_kept_iff {s : StateSync P} (h : s.RetriesBounded)
    (readings : TimeoutReadings P) :
    (s.sweepTransactionRequests readings).abandoned = [] ↔
      ¬ ∃ id fromSequence toSequence,
        s.GivesUpTransactions readings.now id fromSequence toSequence := by
  rw [sweepTransactionRequests, RetryTable.sweep_abandoned_eq_nil_iff]
  constructor
  · rintro hkept ⟨id, _, _, request, hl, _, _, hexp, hretries⟩
    have hlt : request.retries < maxRetries := hkept id request hl hexp
    omega
  · intro hnone id request hl hexp
    have hle : request.retries ≤ maxRetries := h.transactions id request hl
    have hne : request.retries ≠ maxRetries := fun hretries =>
      hnone ⟨id, _, _, request, hl, rfl, rfl, hexp, hretries⟩
    change request.retries < maxRetries
    omega

/-- Giving up a request, whichever it is, is what sends the machine to `Idle`. -/
theorem RetriesBounded.handleTimeouts_state {s : StateSync P} (h : s.RetriesBounded)
    (readings : TimeoutReadings P) :
    (s.GivesUpAny readings.now → (s.handleTimeouts readings).2.state = .idle) ∧
      (¬ s.GivesUpAny readings.now → (s.handleTimeouts readings).2.state = s.state) := by
  have hkept : (s.sweepSnapshotRequests readings).abandoned = [] ∧
      (s.sweepTransactionRequests readings).abandoned = [] ↔ ¬ s.GivesUpAny readings.now := by
    rw [h.snapshots_kept_iff, h.transactions_kept_iff, GivesUpAny, not_or]
  refine ⟨fun hany => if_neg ?_, fun hnone => if_pos (hkept.mpr hnone)⟩
  rw [hkept]
  exact not_not_intro hany

theorem GivesUpOwn.any {s : StateSync P} {own : Option PhaseRequest} {now : Instant}
    (h : s.GivesUpOwn own now) : s.GivesUpAny now := by
  unfold GivesUpOwn at h
  split at h
  · exact Or.inl ⟨_, h.2⟩
  · exact Or.inr ⟨_, _, _, h⟩
  · exact h.elim

end StateSync

/-- Handling timeouts changes the phase only for a request of that phase exactly when the
machine is idle, no request is given up, or one of those given up is the phase's own. -/
theorem timeouts_abort_own_sync_iff {timeout : Duration} {maxConcurrentRequests : UInt64}
    {calls : List (SyncCall P)} {s : StateSync P}
    (h : (syncMachine P checks).Run (withConfig timeout maxConcurrentRequests) calls s)
    (readings : TimeoutReadings P) :
    ((s.handleTimeouts readings).2.state ≠ s.state →
        s.GivesUpOwn (phaseRequest calls) readings.now) ↔
      s.state = .idle ∨ ¬ s.GivesUpAny readings.now ∨
        s.GivesUpOwn (phaseRequest calls) readings.now := by
  obtain ⟨hidle, hsame⟩ := (run_retriesBounded h).handleTimeouts_state readings
  by_cases hany : s.GivesUpAny readings.now
  · rw [hidle hany]
    simp only [hany, not_true_eq_false, false_or]
    rw [← or_iff_not_imp_left, eq_comm]
  · simp [hsame hany, hany]

/-- All readings of the clock agree, and maps are traversed as stored. -/
def StateSync.TimeoutReadings.frozen (now : Instant) : TimeoutReadings P where
  now := now
  snapshotReissuedAt _ := now
  transactionReissuedAt _ := now
  snapshotOrder := .stored _
  transactionOrder := .stored _

/-- A snapshot download whose only request runs out of retries is given up. -/
theorem timeouts_abort_own_sync_plain :
    ∃ calls s, (syncMachine .plain .on).Run (withConfig 30 10) calls s ∧
      s.state = .downloadingSnapshot 5 0 ∧
      (s.handleTimeouts (.frozen 400)).2.state = .idle ∧
      s.GivesUpOwn (phaseRequest calls) 400 := by
  have hrun := ((((Machine.Run.start (M := syncMachine .plain .on)
    (s := withConfig 30 10)).of_step (e := .startSnapshotDownload 5 0 0 0) rfl).of_step
      (e := .handleTimeouts (.frozen 100)) rfl).of_step
      (e := .handleTimeouts (.frozen 200)) rfl).of_step
      (e := .handleTimeouts (.frozen 300)) rfl
  have hown := (timeouts_abort_own_sync_iff hrun (.frozen 400)).mpr
    (Or.inr (Or.inr ⟨rfl, ⟨5, 0, 300, 3⟩, rfl, by decide, rfl⟩))
  exact ⟨_, _, hrun, rfl, rfl, hown (by decide)⟩

/-- The answered request of a finished download expires and takes a synced machine to `Idle`. -/
theorem answered_request_aborts_synced :
    ∃ calls s, (syncMachine .plain .on).Run (withConfig 30 10) calls s ∧
      s.state = .synced 1 ∧ (s.handleTimeouts (.frozen 400)).2.state = .idle ∧
      ¬ s.GivesUpOwn (phaseRequest calls) 400 := by
  have hrun := ((((((Machine.Run.start (M := syncMachine .plain .on)
    (s := withConfig 30 10)).of_step (e := .startTransactionDownload 1 1 0 0 0) rfl).of_step
      (e := .handleTransactions [7] 0 (.stored ℕ)) rfl).of_step
      (e := .completeTransactionApplication 1) rfl).of_step
      (e := .handleTimeouts (.frozen 100)) rfl).of_step
      (e := .handleTimeouts (.frozen 200)) rfl).of_step
      (e := .handleTimeouts (.frozen 300)) rfl
  exact ⟨_, _, hrun, rfl, rfl, id⟩

-- a download that has just begun goes the same way, by the request that the one before it has left
example :
    ∃ calls s, (syncMachine .plain .on).Run (withConfig 30 10) calls s ∧
      s.state = .downloadingTransactions 1 1 320 ∧
      (s.handleTimeouts (.frozen 335)).2.state = .idle ∧
      ¬ s.GivesUpOwn (phaseRequest calls) 335 := by
  have hrun := (((((((Machine.Run.start (M := syncMachine .plain .on)
    (s := withConfig 30 10)).of_step (e := .startTransactionDownload 1 1 0 0 0) rfl).of_step
      (e := .handleTransactions [7] 0 (.stored ℕ)) rfl).of_step
      (e := .completeTransactionApplication 1) rfl).of_step
      (e := .handleTimeouts (.frozen 100)) rfl).of_step
      (e := .handleTimeouts (.frozen 200)) rfl).of_step
      (e := .handleTimeouts (.frozen 300)) rfl).of_step
      (e := .startTransactionDownload 1 1 0 320 320) rfl
  refine ⟨_, _, hrun, rfl, rfl, ?_⟩
  rintro ⟨request, hl, -, -, hexpired, -⟩
  obtain rfl := Option.some.inj hl
  exact absurd hexpired (by decide)

end SilverNetwork
