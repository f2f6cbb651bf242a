import SilverNetwork.Verification.Sync.Semantics

/-! The phases as a machine of their own. Its moves read nothing but the phase, the event
and the sequence numbers of the snapshots received so far; the sync machine refines it. -/

namespace SilverNetwork

open StateSync

variable {P : Platform} {checks : OverflowChecks}

/-- No download, verification or application is under way. -/
def SyncState.Settled : SyncState → Prop
  | .idle | .synced _ => True
  | _ => False

/-- The moves that each event allows, `heard` being the snapshot numbers received before. -/
inductive PhaseMove (heard : List UInt64) : SyncState → SyncEvent P → SyncState → Prop where
  | requestSnapshot (p target peer t₁ t₂) (hp : p.Settled) :
      PhaseMove heard p (.startSnapshotDownload target peer t₁ t₂) (.downloadingSnapshot target t₁)
  | refuseSnapshot (p target peer t₁ t₂) (hp : ¬ p.Settled) :
      PhaseMove heard p (.startSnapshotDownload target peer t₁ t₂) p
  | verify (p snapshot peer t) :
      PhaseMove heard p (.handleSnapshot snapshot peer t)
        (.verifyingSnapshot (P.sequenceNumber snapshot))
  | reject (p sequence t) :
      PhaseMove heard p (.completeSnapshotVerification sequence false t) .idle
  | ignoreVerdict (p sequence t) :
      PhaseMove heard p (.completeSnapshotVerification sequence true t) p
  | sync (p sequence t) (hheard : sequence ∈ heard) :
      PhaseMove heard p (.completeSnapshotVerification sequence true t) (.synced sequence)
  | fetch (p sequence t) (hheard : sequence ∈ heard) :
      PhaseMove heard p (.completeSnapshotVerification sequence true t)
        (.downloadingTransactions sequence sequence t)
  | download (p fromSequence toSequence peer t₁ t₂) :
      PhaseMove heard p (.startTransactionDownload fromSequence toSequence peer t₁ t₂)
        (.downloadingTransactions fromSequence toSequence t₁)
  | apply (fromSequence toSequence t transactions peer order count) :
      PhaseMove heard (.downloadingTransactions fromSequence toSequence t)
        (.handleTransactions transactions peer order) (.applyingTransactions count)
  | collect (p transactions peer order) :
      PhaseMove heard p (.handleTransactions transactions peer order) p
  | finish (p sequence) :
      PhaseMove heard p (.completeTransactionApplication sequence) (.synced sequence)
  | giveUp (p readings) : PhaseMove heard p (.handleTimeouts readings) .idle
  | wait (p readings) : PhaseMove heard p (.handleTimeouts readings) p
  | reset (p) : PhaseMove heard p .reset .idle

theorem PhaseMove.after_snapshot {heard : List UInt64} {p q : SyncState} {snapshot : P.Snapshot}
    {peer : P.PeerId} {t : Instant} (h : PhaseMove heard p (.handleSnapshot snapshot peer t) q) :
    q = .verifyingSnapshot (P.sequenceNumber snapshot) := by
  cases h
  rfl

theorem PhaseMove.after_rejection {heard : List UInt64} {p q : SyncState} {sequence : UInt64}
    {t : Instant}
    (h : PhaseMove (P := P) heard p (.completeSnapshotVerification sequence false t) q) :
    q = .idle := by
  cases h
  rfl

theorem PhaseMove.after_application {heard : List UInt64} {p q : SyncState} {sequence : UInt64}
    (h : PhaseMove (P := P) heard p (.completeTransactionApplication sequence) q) :
    q = .synced sequence := by
  cases h
  rfl

/-! ## The snapshots received so far -/

def hear (heard : List UInt64) (c : SyncCall P) : List UInt64 :=
  match c.event with
  | .handleSnapshot snapshot _ _ => heard ++ [P.sequenceNumber snapshot]
  | _ => heard

/-- The sequence numbers of the snapshots received in the given calls. -/
def heard (calls : List (SyncCall P)) : List UInt64 := calls.foldl hear []

/-- Only snapshots that were received are stored. -/
def StoresHeard (heard : List UInt64) (s : StateSync P) : Prop :=
  ∀ sequence ∈ s.pendingSnapshots, sequence ∈ heard

theorem StoresHeard.step {heard : List UInt64} {s t : StateSync P} {e : SyncEvent P}
    {r : SyncResult P} (h : StoresHeard heard s) (hstep : SyncStep checks s e r t) :
    StoresHeard (hear heard ⟨s, e, r, t⟩) t := by
  cases hstep with
  | snapshotReceived =>
      intro sequence hmem
      rcases (AList.mem_insert _).mp hmem with rfl | hmem
      · exact List.mem_concat_self
      · exact List.mem_append_left _ (h sequence hmem)
  | snapshotRejected | snapshotComplete | snapshotIncomplete =>
      intro sequence hmem
      exact h sequence (AList.mem_erase.mp hmem).2
  | resetDone =>
      intro sequence hmem
      exact (AList.notMem_empty sequence hmem).elim
  | _ => exact h

theorem run_storesHeard {timeout : Duration} {maxConcurrentRequests : UInt64}
    {calls : List (SyncCall P)} {s : StateSync P}
    (h : (syncMachine P checks).Run (withConfig timeout maxConcurrentRequests) calls s) :
    StoresHeard (heard calls) s := by
  refine h.invariant_history (I := StoresHeard) ?_ ?_
  · intro sequence hmem
    exact (AList.notMem_empty sequence hmem).elim
  · intro past c hmakes hpast
    exact hpast.step (syncMachine_makes_iff.mp hmakes)

/-! ## Refinement -/

theorem settled_iff (s : StateSync P) : s.state.Settled ↔ s.isSyncing = false := by
  unfold isSyncing
  cases s.state <;> simp [SyncState.Settled]

/-- Every call moves the phase as the phase machine allows. -/
theorem SyncStep.phaseMove {heard : List UInt64} {s t : StateSync P} {e : SyncEvent P}
    {r : SyncResult P} (hstep : SyncStep checks s e r t) (h : StoresHeard heard s) :
    PhaseMove heard s.state e t.state := by
  cases hstep with
  | alreadySyncing target peer t₁ t₂ hsync =>
      exact .refuseSnapshot _ target peer t₁ t₂ (by simp [settled_iff, hsync])
  | snapshotLimit target peer t₁ t₂ hsync | snapshotRequested target peer t₁ t₂ hsync =>
      exact .requestSnapshot _ target peer t₁ t₂ ((settled_iff s).mpr hsync)
  | snapshotReceived snapshot peer t => exact .verify _ snapshot peer t
  | snapshotRejected sequence t => exact .reject _ sequence t
  | snapshotUnknown sequence t => exact .ignoreVerdict _ sequence t
  | snapshotComplete sequence t _ hsome =>
      have hstored := HashMap.mem_iff_exists_lookup.mpr ⟨_, hsome⟩
      exact .sync _ sequence t (h sequence hstored)
  | snapshotIncomplete sequence t _ hsome =>
      have hstored := HashMap.mem_iff_exists_lookup.mpr ⟨_, hsome⟩
      exact .fetch _ sequence t (h sequence hstored)
  | transactionLimit fromSequence toSequence peer t₁ t₂
  | transactionsRequested fromSequence toSequence peer t₁ t₂ =>
      exact .download _ fromSequence toSequence peer t₁ t₂
  | transactionsComplete transactions peer order fromSequence toSequence t _ hstate =>
      rw [hstate]
      exact .apply fromSequence toSequence t transactions peer order _
  | transactionsPartial transactions peer order | transactionsUnsolicited transactions peer order =>
      exact .collect _ transactions peer order
  | transactionsApplied sequence => exact .finish _ sequence
  | timeoutsHandled readings =>
      by_cases hkept : (s.sweepSnapshotRequests readings).abandoned = [] ∧
          (s.sweepTransactionRequests readings).abandoned = []
      · have hstate : (s.handleTimeouts readings).2.state = s.state := if_pos hkept
        rw [hstate]
        exact .wait _ readings
      · have hstate : (s.handleTimeouts readings).2.state = .idle := if_neg hkept
        rw [hstate]
        exact .giveUp _ readings
  | resetDone => exact .reset _

/-- A positive verdict moves the phase only for a stored snapshot, whatever the phase is. -/
theorem SyncStep.verdict_state {s u : StateSync P} {r : SyncResult P} {sequence : UInt64}
    {t : Instant} (hstep : SyncStep checks s (.completeSnapshotVerification sequence true t) r u) :
    (s.pendingSnapshots.lookup sequence = none → u.state = s.state) ∧
      ∀ pending, s.pendingSnapshots.lookup sequence = some pending →
        u.state = if ∀ d ∈ P.transactions pending.snapshot, d ∈ s.downloadedTransactions
          then .synced sequence else .downloadingTransactions sequence sequence t := by
  cases hstep with
  | snapshotUnknown _ _ hnone => simp [hnone]
  | snapshotComplete _ _ pending hsome hmissing =>
      simp only [hsome, Option.some.injEq, forall_eq', reduceCtorEq, false_imp_iff, true_and]
      have hall := missingTransactions_eq_nil_iff.mp hmissing
      rw [if_pos hall]
  | snapshotIncomplete _ _ pending hsome hmissing =>
      simp only [hsome, Option.some.injEq, forall_eq', reduceCtorEq, false_imp_iff, true_and]
      have hsome_missing : ¬ ∀ d ∈ P.transactions pending.snapshot,
          d ∈ s.downloadedTransactions := by
        rwa [ne_eq, missingTransactions_eq_nil_iff] at hmissing
      rw [if_neg hsome_missing]

/-- In every run each call moves the phase as the phase machine allows. A received snapshot,
a negative verdict and a finished application move it from any phase; a positive verdict
moves it, from any phase, exactly when its snapshot is stored. -/
theorem events_move_phase {timeout : Duration} {maxConcurrentRequests : UInt64}
    {calls : List (SyncCall P)} {s : StateSync P}
    (h : (syncMachine P checks).Run (withConfig timeout maxConcurrentRequests) calls s)
    {before after : List (SyncCall P)} {c : SyncCall P} (hcalls : calls = before ++ c :: after) :
    PhaseMove (heard before) c.pre.state c.event c.post.state ∧
      (∀ snapshot peer t, c.event = .handleSnapshot snapshot peer t →
        c.post.state = .verifyingSnapshot (P.sequenceNumber snapshot)) ∧
      (∀ sequence t, c.event = .completeSnapshotVerification sequence false t →
        c.post.state = .idle) ∧
      (∀ sequence t, c.event = .completeSnapshotVerification sequence true t →
        (c.pre.pendingSnapshots.lookup sequence = none → c.post.state = c.pre.state) ∧
          ∀ pending, c.pre.pendingSnapshots.lookup sequence = some pending →
            c.post.state =
              if ∀ d ∈ P.transactions pending.snapshot, d ∈ c.pre.downloadedTransactions
              then .synced sequence else .downloadingTransactions sequence sequence t) ∧
      (∀ sequence, c.event = .completeTransactionApplication sequence →
        c.post.state = .synced sequence) := by
  obtain ⟨hrun, hmakes⟩ := h.split hcalls
  have hstep := syncMachine_makes_iff.mp hmakes
  have hmove := hstep.phaseMove (run_storesHeard hrun)
  refine ⟨hmove, ?_, ?_, ?_, ?_⟩
  · intro snapshot peer t he
    rw [he] at hmove
    exact hmove.after_snapshot
  · intro sequence t he
    rw [he] at hmove
    exact hmove.after_rejection
  · intro sequence t he
    rw [he] at hstep
    exact hstep.verdict_state
  · intro sequence he
    rw [he] at hmove
    exact hmove.after_application

/-- An unsolicited snapshot and an unannounced completion both move the phase. -/
theorem events_move_phase_plain :
    ∃ calls s, (syncMachine .plain .on).Run (withConfig 30 10) calls s ∧
      heard calls = [5] ∧ s.state = .synced 9 := by
  have hrun := ((Machine.Run.start (M := syncMachine .plain .on)
    (s := withConfig 30 10)).of_step (e := .handleSnapshot ⟨0, 5, []⟩ 0 1) rfl).of_step
      (e := .completeTransactionApplication 9) rfl
  have hmoves := @events_move_phase .plain .on 30 10 _ _ hrun [_] [] _ rfl
  exact ⟨_, _, hrun, rfl, hmoves.2.2.2.2 9 rfl⟩

/-- A completion in `Idle`, a verdict in `Synced` and a snapshot that nobody requested each
move the phase. -/
theorem unrelated_events_move_phase :
    ∃ c₁ c₂ c₃ s, (syncMachine .plain .on).Run (withConfig 30 10) [c₁, c₂, c₃] s ∧
      (c₁.event = .completeTransactionApplication 9 ∧ c₁.pre.state = .idle ∧
        c₁.post.state = .synced 9) ∧
      (c₂.event = .completeSnapshotVerification 5 false 1 ∧ c₂.pre.state = .synced 9 ∧
        c₂.post.state = .idle) ∧
      (c₃.event = .handleSnapshot ⟨0, 5, []⟩ 0 2 ∧ c₃.pre.pendingSnapshotRequests = ∅ ∧
        c₃.pre.state = .idle ∧ c₃.post.state = .verifyingSnapshot 5) := by
  have hrun := (((Machine.Run.start (M := syncMachine .plain .on)
    (s := withConfig 30 10)).of_step (e := .completeTransactionApplication 9) rfl).of_step
      (e := .completeSnapshotVerification 5 false 1) rfl).of_step
      (e := .handleSnapshot ⟨0, 5, []⟩ 0 2) rfl
  exact ⟨_, _, _, _, hrun, ⟨rfl, rfl, rfl⟩, ⟨rfl, rfl, rfl⟩, rfl, rfl, rfl, rfl⟩

end SilverNetwork
