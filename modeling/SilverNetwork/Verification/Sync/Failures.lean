import SilverNetwork.Verification.Sync.Semantics

/-! What a failed operation leaves behind. Both `start_*` operations enter their phase
before they check the request limit, so reaching the limit leaves the phase entered. -/

namespace SilverNetwork

open StateSync

variable {P : Platform} {checks : OverflowChecks}

namespace StateSync

/-- The operation does not meet its request limit after entering a new phase. -/
def FailsClean (s : StateSync P) : SyncEvent P → Prop
  | .startSnapshotDownload _ _ _ _ =>
      s.isSyncing = true ∨ s.pendingSnapshotRequests.len < s.maxConcurrentRequests.toNat
  | .startTransactionDownload fromSequence toSequence _ startedAt _ =>
      s.pendingTransactionRequests.len < s.maxConcurrentRequests.toNat ∨
        s.state = .downloadingTransactions fromSequence toSequence startedAt
  | _ => True

theorem ne_enter_of_not_isSyncing {s : StateSync P} (h : s.isSyncing = false)
    (target : UInt64) (startedAt : Instant) :
    { s with state := .downloadingSnapshot target startedAt } ≠ s := by
  intro heq
  have hstate : SyncState.downloadingSnapshot target startedAt = s.state :=
    congrArg StateSync.state heq
  simp [isSyncing, ← hstate] at h

theorem enter_eq_self_iff (s : StateSync P) (state : SyncState) :
    { s with state := state } = s ↔ s.state = state := by
  constructor
  · intro heq
    exact (congrArg StateSync.state heq).symm
  · rintro rfl
    rfl

end StateSync

theorem SyncStep.failure_clean_iff {s t : StateSync P} {e : SyncEvent P} {r : SyncResult P}
    (hstep : SyncStep checks s e r t) : (r.IsErr → t = s) ↔ s.FailsClean e := by
  cases hstep with
  | alreadySyncing _ _ _ _ hsync => simp [FailsClean, hsync]
  | snapshotLimit target _ t₁ _ hsync hfull =>
      simp only [SyncResult.IsErr, forall_const, FailsClean, hsync, Bool.false_eq_true, false_or,
        Nat.not_lt.mpr hfull, iff_false]
      exact ne_enter_of_not_isSyncing hsync target t₁
  | snapshotRequested _ _ _ _ _ hroom => simp [SyncResult.IsErr, FailsClean, hroom]
  | transactionLimit _ _ _ _ _ hfull =>
      simp only [SyncResult.IsErr, forall_const, FailsClean, Nat.not_lt.mpr hfull, false_or]
      exact enter_eq_self_iff s _
  | transactionsRequested _ _ _ _ _ _ hroom => simp [SyncResult.IsErr, FailsClean, hroom]
  | _ => simp [SyncResult.IsErr, FailsClean]

/-- A failed call changes nothing exactly when it is not a `start_*` call that enters a new
phase with the request limit reached. -/
theorem failed_call_changes_nothing_iff {timeout : Duration} {maxConcurrentRequests : UInt64}
    {calls : List (SyncCall P)} {s : StateSync P}
    (h : (syncMachine P checks).Run (withConfig timeout maxConcurrentRequests) calls s)
    {c : SyncCall P} (hc : c ∈ calls) :
    (c.result.IsErr → c.post = c.pre) ↔ c.pre.FailsClean c.event :=
  (syncMachine_makes_iff.mp (h.makes hc)).failure_clean_iff

/-- A verdict for a snapshot that is not stored fails and changes nothing. -/
theorem failed_call_changes_nothing_plain :
    ∃ calls s, (syncMachine .plain .on).Run (withConfig 30 10) calls s ∧
      ∃ c ∈ calls, c.result.IsErr ∧ c.post = c.pre := by
  have hrun := (Machine.Run.start (M := syncMachine .plain .on)
    (s := withConfig 30 10)).of_step (e := .completeSnapshotVerification 5 true 1) rfl
  have hclean := (failed_call_changes_nothing_iff hrun List.mem_concat_self).mpr trivial
  exact ⟨_, _, hrun, _, List.mem_concat_self, trivial, hclean trivial⟩

/-- With one request left over from a finished download, starting the next one fails but
leaves the machine in its phase. -/
theorem failed_start_enters_phase :
    ∃ calls s, (syncMachine .plain .on).Run (withConfig 30 1) calls s ∧
      ∃ c ∈ calls, c.event = .startTransactionDownload 2 2 0 2 2 ∧ c.result.IsErr ∧
        c.pre.isSyncing = false ∧ c.post.isSyncing = true := by
  have hrun := ((((Machine.Run.start (M := syncMachine .plain .on)
    (s := withConfig 30 1)).of_step (e := .startTransactionDownload 1 1 0 0 0) rfl).of_step
      (e := .handleTransactions [7] 0 (.stored ℕ)) rfl).of_step
      (e := .completeTransactionApplication 1) rfl).of_step
      (e := .startTransactionDownload 2 2 0 2 2) rfl
  exact ⟨_, _, hrun, _, List.mem_concat_self, rfl, trivial,
    rfl, rfl⟩

end SilverNetwork
