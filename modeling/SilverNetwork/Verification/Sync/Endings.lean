import SilverNetwork.Foundations.RetryLifetime
import SilverNetwork.Verification.Sync.Bookkeeping
import SilverNetwork.Verification.Sync.Outstanding

/-! That a download ends. As long as it has a request of its own, and its timeouts are handled often
enough, it is answered or given up. -/

namespace SilverNetwork

open StateSync

variable {P : Platform} {checks : OverflowChecks}

/-- What a call reads if it handles timeouts. -/
def SyncEvent.sweep : SyncEvent P → Option (TimeoutReadings P)
  | .handleTimeouts readings => some readings
  | _ => none

def sweeps (calls : List (SyncCall P)) : List (TimeoutReadings P) :=
  calls.filterMap fun c => c.event.sweep

theorem sweeps_concat (calls : List (SyncCall P)) (c : SyncCall P) :
    sweeps (calls ++ [c]) = sweeps calls ++ c.event.sweep.toList := by
  cases h : c.event.sweep <;> simp [sweeps, h]

namespace StateSync.TimeoutReadings

/-- The clock at the start of the sweep, and when it reissues the request. -/
def snapshotClock (sequence : UInt64) (readings : TimeoutReadings P) : Instant × Instant :=
  (readings.now, readings.snapshotReissuedAt sequence)

def transactionClock (id : TransactionRequestId) (readings : TimeoutReadings P) :
    Instant × Instant :=
  (readings.now, readings.transactionReissuedAt id)

/-- The second sweep comes more than the timeout after the first. -/
def Spaced (timeout : Duration) (first second : TimeoutReadings P) : Prop :=
  (∀ sequence, first.snapshotReissuedAt sequence + timeout < second.now) ∧
    ∀ id, first.transactionReissuedAt id + timeout < second.now

theorem paced_of_spaced {timeout : Duration} {sentAt : Instant} {f : TimeoutReadings P → Instant}
    (hf : ∀ first second : TimeoutReadings P, Spaced timeout first second →
      f first + timeout < second.now) {readings : List (TimeoutReadings P)}
    (hfirst : ∀ first ∈ readings.head?, sentAt + timeout < first.now)
    (hspaced : readings.IsChain (Spaced timeout)) :
    RetryTable.Paced timeout sentAt (readings.map fun reading => (reading.now, f reading)) := by
  induction readings generalizing sentAt with
  | nil => trivial
  | cons first rest ih =>
      refine ⟨hfirst first rfl, ih ?_ hspaced.tail⟩
      intro second hsecond
      exact hf first second (hspaced.rel_head? hsecond)

end StateSync.TimeoutReadings

/-! ## The request of a phase -/

theorem SyncStep.timeout_eq {s t : StateSync P} {e : SyncEvent P} {r : SyncResult P}
    (hstep : SyncStep checks s e r t) : t.timeout = s.timeout := by
  cases hstep <;> rfl

theorem kept_of_state {s : StateSync P} {readings : TimeoutReadings P} (hactive : s.state ≠ .idle)
    (hsame : (s.handleTimeouts readings).2.state = s.state) :
    (s.sweepSnapshotRequests readings).abandoned = [] ∧
      (s.sweepTransactionRequests readings).abandoned = [] := by
  by_contra hkept
  have hidle : (s.handleTimeouts readings).2.state = .idle := if_neg hkept
  exact hactive (hsame.symm.trans hidle)

/-- As long as the machine stays in a snapshot download, only sweeps touch its request. -/
theorem SyncStep.snapshot_entry {s t : StateSync P} {e : SyncEvent P} {r : SyncResult P}
    (hstep : SyncStep checks s e r t) {target : UInt64} {startedAt : Instant}
    (hstate : s.state = .downloadingSnapshot target startedAt) (hsame : t.state = s.state)
    {request : SnapshotRequest P} (hl : s.pendingSnapshotRequests.lookup target = some request) :
    ∃ request', t.pendingSnapshotRequests.lookup target = some request' ∧
      (e.sweep.toList.map (TimeoutReadings.snapshotClock target)).foldl
        (RetryTable.sweptEntry maxRetries s.timeout) (some request) = some request' := by
  cases hstep with
  | alreadySyncing | snapshotUnknown | transactionsPartial | transactionsUnsolicited =>
      exact ⟨request, hl, rfl⟩
  | timeoutsHandled readings =>
      have hkept := kept_of_state (by simp [hstate]) hsame
      exact RetryTable.sweep_lookup_of_kept hkept.1 hl
  | snapshotLimit _ _ _ _ hsync | snapshotRequested _ _ _ _ hsync =>
      simp [isSyncing, hstate] at hsync
  | transactionsComplete _ _ _ _ _ _ _ hdownloading =>
      rw [hstate] at hdownloading
      cases hdownloading
  | _ =>
      rw [hstate] at hsame
      cases hsame

/-- As long as the machine stays in a transaction download, only sweeps touch its requests. -/
theorem SyncStep.transaction_entry {s t : StateSync P} {e : SyncEvent P} {r : SyncResult P}
    (hstep : SyncStep checks s e r t) {fromSequence toSequence : UInt64} {startedAt : Instant}
    (hstate : s.state = .downloadingTransactions fromSequence toSequence startedAt)
    (hsame : t.state = s.state) {id : TransactionRequestId} (hid : id ≠ s.nextRequestId)
    {request : TransactionRequest P}
    (hl : s.pendingTransactionRequests.lookup id = some request) :
    ∃ request', t.pendingTransactionRequests.lookup id = some request' ∧
      (e.sweep.toList.map (TimeoutReadings.transactionClock id)).foldl
        (RetryTable.sweptEntry maxRetries s.timeout) (some request) = some request' := by
  cases hstep with
  | alreadySyncing | snapshotUnknown | snapshotIncomplete | transactionLimit
  | transactionsPartial | transactionsUnsolicited =>
      exact ⟨request, hl, rfl⟩
  | transactionsRequested =>
      refine ⟨request, ?_, rfl⟩
      simpa [HashMap.lookup_insert_eq, hid] using hl
  | timeoutsHandled readings =>
      have hkept := kept_of_state (by simp [hstate]) hsame
      exact RetryTable.sweep_lookup_of_kept hkept.2 hl
  | _ =>
      rw [hstate] at hsame
      cases hsame

/-! ## Every run -/

variable {s x : StateSync P} {more : List (SyncCall P)}

/-- What the sweeps of a run make of an entry that its other calls leave alone. -/
theorem run_entry {ρ : Type} [Reissuable ρ] (entry : StateSync P → Option ρ)
    (clock : TimeoutReadings P → ℕ × ℕ) {r : ρ} (hmore : (syncMachine P checks).Run s more x)
    (hl : entry s = some r)
    (hcall : ∀ before c, (syncMachine P checks).Run s before c.pre →
      SyncStep checks c.pre c.event c.result c.post → before ++ [c] <+: more →
        ∀ r, entry c.pre = some r → ∃ r', entry c.post = some r' ∧
          (c.event.sweep.toList.map clock).foldl
            (RetryTable.sweptEntry maxRetries c.pre.timeout) (some r) = some r') :
    x.timeout = s.timeout ∧ ∃ r', entry x = some r' ∧
      ((sweeps more).map clock).foldl (RetryTable.sweptEntry maxRetries s.timeout) (some r) =
        some r' := by
  induction hmore with
  | start => exact ⟨rfl, r, hl, rfl⟩
  | @call more c hrun hmakes ih =>
      have hstep := syncMachine_makes_iff.mp hmakes
      obtain ⟨htimeout, r', hentry, hswept⟩ := ih fun before d hbefore hd hfront =>
        hcall before d hbefore hd (hfront.trans (List.prefix_append _ _))
      obtain ⟨r'', hpost, hlast⟩ := hcall more c hrun hstep List.prefix_rfl r' hentry
      refine ⟨hstep.timeout_eq.trans htimeout, r'', hpost, ?_⟩
      rw [sweeps_concat, List.map_append, List.foldl_append, hswept, ← htimeout, hlast]

/-- An entry that only sweeps touch does not last through four of them. -/
theorem not_outlasts {ρ : Type} [Reissuable ρ] (entry : StateSync P → Option ρ)
    (clock : TimeoutReadings P → ℕ × ℕ) {r : ρ} (hmore : (syncMachine P checks).Run s more x)
    (hl : entry s = some r)
    (hpaced : RetryTable.Paced s.timeout (Reissuable.requestedAt r) ((sweeps more).map clock))
    (hfour : 4 ≤ (sweeps more).length) :
    ¬∀ before c, (syncMachine P checks).Run s before c.pre →
      SyncStep checks c.pre c.event c.result c.post → before ++ [c] <+: more →
        ∀ r, entry c.pre = some r → ∃ r', entry c.post = some r' ∧
          (c.event.sweep.toList.map clock).foldl
            (RetryTable.sweptEntry maxRetries c.pre.timeout) (some r) = some r' := by
  intro hcall
  obtain ⟨_, r', _, hswept⟩ := run_entry entry clock hmore hl hcall
  have hmany : maxRetries - Reissuable.retries r < ((sweeps more).map clock).length := by
    rw [List.length_map, maxRetries]
    omega
  rw [RetryTable.foldl_sweptEntry_eq_none hpaced hmany] at hswept
  cases hswept

/-- The machine downloads, be it a snapshot or transactions. -/
def StateSync.Downloading (s : StateSync P) : Prop :=
  match s.state with
  | .downloadingSnapshot _ _ | .downloadingTransactions _ _ _ => True
  | _ => False

/-- The first sweep comes more than the timeout after all pending requests were sent. -/
def StateSync.Overdue (s : StateSync P) (first : TimeoutReadings P) : Prop :=
  (∀ sequence request, s.pendingSnapshotRequests.lookup sequence = some request →
    request.requestedAt + s.timeout < first.now) ∧
  ∀ id request, s.pendingTransactionRequests.lookup id = some request →
    request.requestedAt + s.timeout < first.now

/-- A download that has a request of its own does not outlast four sweeps that come more than the
timeout after one another. -/
theorem download_ends {timeout : Duration} {maxConcurrentRequests : UInt64}
    {calls : List (SyncCall P)}
    (hrun : (syncMachine P checks).Run (withConfig timeout maxConcurrentRequests) calls s)
    (hmore : (syncMachine P checks).Run s more x)
    (hissued : (issued (calls ++ more)).length < 2 ^ 64) (hdownloading : s.Downloading)
    (hown : s.Outstanding) (hfirst : ∀ first ∈ (sweeps more).head?, s.Overdue first)
    (hspaced : (sweeps more).IsChain (TimeoutReadings.Spaced s.timeout))
    (hfour : 4 ≤ (sweeps more).length) : ∃ c ∈ more, c.post.state ≠ s.state := by
  by_contra hnone
  have hsame : ∀ c ∈ more, c.post.state = s.state := by
    intro c hc
    by_contra hne
    exact hnone ⟨c, hc, hne⟩
  have hpre : ∀ c ∈ more, c.pre.state = s.state := fun c hc =>
    hmore.invariant_pre (I := fun y => y.state = s.state) rfl (fun d hd _ _ => hsame d hd) hc
  have hcalls : ∀ before c, before ++ [c] <+: more → (issued (calls ++ before)).length < 2 ^ 64 := by
    intro before c hfront
    obtain ⟨after, rfl⟩ := hfront
    rw [issued, List.append_assoc, ← List.append_assoc, List.flatMap_append,
      List.length_append] at hissued
    exact Nat.lt_of_le_of_lt (Nat.le_add_right _ _) hissued
  have hstays : ∀ before c, before ++ [c] <+: more →
      c.pre.state = s.state ∧ c.post.state = c.pre.state := by
    intro before c hfront
    have hc : c ∈ more := hfront.subset List.mem_concat_self
    exact ⟨hpre c hc, (hsame c hc).trans (hpre c hc).symm⟩
  unfold Outstanding at hown
  split at hown
  · rename_i target startedAt hstate
    obtain ⟨request, hl⟩ := HashMap.mem_iff_exists_lookup.mp hown
    have hpaced := TimeoutReadings.paced_of_spaced
      (f := fun reading => reading.snapshotReissuedAt target) (fun _ _ hspaced => hspaced.1 target)
      (fun first hmem => (hfirst first hmem).1 target request hl) hspaced
    apply not_outlasts (fun y => y.pendingSnapshotRequests.lookup target)
      (TimeoutReadings.snapshotClock target) hmore hl hpaced hfour
    intro before c _ hstep hfront _ hentry
    exact hstep.snapshot_entry ((hstays before c hfront).1.trans hstate) (hstays before c hfront).2
      hentry
  · rename_i fromSequence toSequence startedAt hstate
    obtain ⟨id, request, hl, _, _⟩ := hown
    have hpaced := TimeoutReadings.paced_of_spaced
      (f := fun reading => reading.transactionReissuedAt id) (fun _ _ hspaced => hspaced.2 id)
      (fun first hmem => (hfirst first hmem).2 id request hl) hspaced
    apply not_outlasts (fun y => y.pendingTransactionRequests.lookup id)
      (TimeoutReadings.transactionClock id) hmore hl hpaced hfour
    intro before c hbefore hstep hfront r hentry
    have hledger := run_ledgered (hrun.append hbefore) (hcalls before c hfront)
    exact hstep.transaction_entry ((hstays before c hfront).1.trans hstate)
      (hstays before c hfront).2 (UInt64.ne_of_lt (hledger.id_lt hentry)) hentry
  · rename_i hsnapshot htransactions
    unfold Downloading at hdownloading
    split at hdownloading
    · rename_i hstate
      exact hsnapshot _ _ hstate
    · rename_i hstate
      exact htransactions _ _ _ hstate
    · exact hdownloading

/-- The machine has asked for the transactions 1 and 2. -/
def StateSync.asking : StateSync .plain :=
  { withConfig 30 10 with
    state := .downloadingTransactions 1 2 0
    nextRequestId := 1
    pendingTransactionRequests := (∅ : HashMap _ _).insert 0 ⟨0, 1, 2, 0, 0, 0⟩ }

/-- A transaction download that nobody answers. -/
theorem download_ends_unanswered :
    ∃ (x : StateSync .plain) (more : List (SyncCall .plain)),
      (syncMachine .plain .on).Run .asking more x ∧ x.state = .idle ∧
      ∃ c ∈ more, c.post.state ≠ StateSync.asking.state := by
  have hrun : (syncMachine .plain .on).Run (withConfig 30 10) _ .asking :=
    Machine.Run.start.of_step (e := .startTransactionDownload 1 2 0 0 0) rfl
  have hmore := Machine.Run.start.of_step (M := syncMachine .plain .on) (s := .asking)
    (e := .handleTimeouts (.frozen 100)) rfl
    |>.of_step (e := .handleTimeouts (.frozen 200)) rfl
    |>.of_step (e := .handleTimeouts (.frozen 300)) rfl
    |>.of_step (e := .handleTimeouts (.frozen 400)) rfl
  refine ⟨_, _, hmore, rfl, download_ends hrun hmore (by decide) trivial
    ⟨0, _, rfl, rfl, rfl⟩ ?_ ?_ (by decide)⟩
  · rintro first ⟨⟩
    refine ⟨nofun, ?_⟩
    intro id request hl
    have hrequest : request.requestedAt = 0 := by
      simp only [StateSync.asking, HashMap.lookup_insert_eq] at hl
      split at hl
      · obtain rfl := Option.some.inj hl
        rfl
      · cases hl
    rw [hrequest]
    decide
  · have hspaced : ∀ first second : Instant, first + 30 < second →
        TimeoutReadings.Spaced (P := .plain) 30 (.frozen first) (.frozen second) :=
      fun _ _ hlate => ⟨fun _ => hlate, fun _ => hlate⟩
    exact .cons_cons (hspaced 100 200 (by decide)) (.cons_cons (hspaced 200 300 (by decide))
      (.cons_cons (hspaced 300 400 (by decide)) (.singleton _)))

end SilverNetwork
