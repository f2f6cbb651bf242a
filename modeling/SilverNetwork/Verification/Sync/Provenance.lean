import SilverNetwork.Verification.Sync.Semantics

/-! Which snapshots a run applies. A verdict names its snapshot by sequence number only,
so it reaches whatever is stored under that number when it comes back. -/

namespace SilverNetwork

open StateSync

variable {P : Platform} {checks : OverflowChecks} {Valid : P.Snapshot → Bool}

/-- A call together with the snapshots whose verdict is still awaited when it is made. -/
structure AwaitedCall (P : Platform) where
  awaiting : List P.Snapshot
  call : SyncCall P

/-- Runs from a new machine in which every verdict answers one awaited verification, in any
order, with the validity of the snapshot that was to be verified. -/
inductive VerdictRun (checks : OverflowChecks) (Valid : P.Snapshot → Bool) :
    List (AwaitedCall P) → StateSync P → List P.Snapshot → Prop where
  | start (timeout maxConcurrentRequests) :
      VerdictRun checks Valid [] (withConfig timeout maxConcurrentRequests) []
  | verdict {items s awaiting} (snapshot rest t r u) :
      VerdictRun checks Valid items s awaiting → awaiting.Perm (snapshot :: rest) →
      syncStep checks s (.completeSnapshotVerification (P.sequenceNumber snapshot)
        (Valid snapshot) t) = some (r, u) →
      VerdictRun checks Valid (items ++ [⟨awaiting, s, .completeSnapshotVerification
        (P.sequenceNumber snapshot) (Valid snapshot) t, r, u⟩]) u rest
  | other {items s awaiting} (e r u) :
      VerdictRun checks Valid items s awaiting → ¬ e.IsVerdict →
      syncStep checks s e = some (r, u) →
      VerdictRun checks Valid (items ++ [⟨awaiting, s, e, r, u⟩]) u (awaiting ++ r.verifying)

/-- An invalid snapshot is not received while a valid one with its number awaits its verdict. -/
def Uncontested (Valid : P.Snapshot → Bool) (item : AwaitedCall P) : Prop :=
  ∀ snapshot peer t, item.call.event = .handleSnapshot snapshot peer t →
    Valid snapshot = false → ∀ other ∈ item.awaiting,
      P.sequenceNumber other = P.sequenceNumber snapshot → Valid other = false

/-- No positive verdict that may still come would reach an invalid snapshot. -/
def VerdictsSound (Valid : P.Snapshot → Bool) (awaiting : List P.Snapshot)
    (s : StateSync P) : Prop :=
  ∀ snapshot ∈ awaiting, Valid snapshot = true → ∀ pending,
    s.pendingSnapshots.lookup (P.sequenceNumber snapshot) = some pending →
      Valid pending.snapshot = true

/-- Soundness only looks at what is awaited and what is stored, so losing either keeps it. -/
theorem VerdictsSound.mono {awaiting awaiting' : List P.Snapshot} {s u : StateSync P}
    (h : VerdictsSound Valid awaiting s) (hsub : ∀ x ∈ awaiting', x ∈ awaiting)
    (hstored : ∀ k v, u.pendingSnapshots.lookup k = some v →
      s.pendingSnapshots.lookup k = some v) : VerdictsSound Valid awaiting' u := by
  intro snapshot hmem hvalid pending hl
  exact h snapshot (hsub snapshot hmem) hvalid pending (hstored _ _ hl)

/-- A verdict call stores nothing. -/
theorem SyncStep.verdict_pendingSnapshots {s u : StateSync P} {r : SyncResult P}
    {sequence : UInt64} {valid : Bool} {t : Instant}
    (h : SyncStep checks s (.completeSnapshotVerification sequence valid t) r u) :
    ∀ k v, u.pendingSnapshots.lookup k = some v → s.pendingSnapshots.lookup k = some v := by
  intro k v hl
  have herase : (s.pendingSnapshots.erase sequence).lookup k = some v →
      s.pendingSnapshots.lookup k = some v := by
    rw [HashMap.lookup_erase_eq]
    split <;> simp
  cases h with
  | snapshotRejected => exact herase hl
  | snapshotUnknown => exact hl
  | snapshotComplete => exact herase hl
  | snapshotIncomplete => exact herase hl

/-- Of the other calls only a received snapshot is stored and awaited. -/
theorem VerdictsSound.other {awaiting : List P.Snapshot} {s u : StateSync P} {e : SyncEvent P}
    {r : SyncResult P} (h : VerdictsSound Valid awaiting s) (he : ¬ e.IsVerdict)
    (hstep : SyncStep checks s e r u) (hunc : Uncontested Valid ⟨awaiting, s, e, r, u⟩) :
    VerdictsSound Valid (awaiting ++ r.verifying) u := by
  cases hstep with
  | snapshotReceived received peer t =>
      intro snapshot hmem hvalid pending hl
      rw [HashMap.lookup_insert_eq] at hl
      simp only [SyncResult.verifying, SyncResult.emitted, List.filterMap_cons,
        List.filterMap_nil, List.mem_append, List.mem_singleton] at hmem
      by_cases hseq : P.sequenceNumber snapshot = P.sequenceNumber received
      · rw [if_pos hseq] at hl
        obtain rfl := Option.some.inj hl
        rcases hmem with hmem | rfl
        · by_contra hinvalid
          have hfalse := hunc received peer t rfl (by simpa using hinvalid) snapshot hmem hseq
          simp [hvalid] at hfalse
        · exact hvalid
      · rw [if_neg hseq] at hl
        rcases hmem with hmem | rfl
        · exact h snapshot hmem hvalid pending hl
        · exact absurd rfl hseq
  | snapshotRejected | snapshotUnknown | snapshotComplete | snapshotIncomplete =>
      exact absurd trivial he
  | timeoutsHandled readings =>
      refine h.mono ?_ (fun _ _ hl => hl)
      simp [SyncResult.verifying, SyncResult.emitted, handleTimeouts, List.filterMap_append,
        List.filterMap_map]
  | resetDone => exact h.mono (by simp [SyncResult.verifying, SyncResult.emitted]) (by simp [reset])
  | _ => exact h.mono (by simp [SyncResult.verifying, SyncResult.emitted]) (fun _ _ hl => hl)

/-- Only a positive verdict returns a snapshot to apply, and it returns the stored one. -/
theorem SyncStep.applied_snapshot {s u : StateSync P} {e : SyncEvent P} {r : SyncResult P}
    (h : SyncStep checks s e r u) {snapshot : P.Snapshot}
    (hmem : .applySnapshot snapshot ∈ r.emitted) :
    ∃ sequence t pending, e = .completeSnapshotVerification sequence true t ∧
      s.pendingSnapshots.lookup sequence = some pending ∧ pending.snapshot = snapshot := by
  cases h with
  | snapshotComplete sequence t pending hsome | snapshotIncomplete sequence t pending hsome =>
      obtain rfl : snapshot = pending.snapshot := by simpa [SyncResult.emitted] using hmem
      exact ⟨sequence, t, pending, rfl, hsome, rfl⟩
  | timeoutsHandled => simp [SyncResult.emitted, handleTimeouts] at hmem
  | _ => simp [SyncResult.emitted] at hmem

theorem VerdictRun.sound {items : List (AwaitedCall P)} {s : StateSync P}
    {awaiting : List P.Snapshot} (h : VerdictRun checks Valid items s awaiting)
    (hunc : ∀ item ∈ items, Uncontested Valid item) : VerdictsSound Valid awaiting s := by
  induction h with
  | start => simp [VerdictsSound]
  | verdict snapshot rest t r u _ hperm hstep ih =>
      have hbefore := ih (fun item hitem => hunc item (List.mem_append_left _ hitem))
      refine hbefore.mono ?_ (syncStep_rule hstep).verdict_pendingSnapshots
      intro x hx
      exact hperm.mem_iff.mpr (List.mem_cons_of_mem _ hx)
  | other e r u _ he hstep ih =>
      have hbefore := ih (fun item hitem => hunc item (List.mem_append_left _ hitem))
      exact hbefore.other he (syncStep_rule hstep) (hunc _ (by simp))

/-- In a run of uncontested calls every snapshot returned for application is valid. -/
theorem VerdictRun.applies_only_valid {items : List (AwaitedCall P)} {s : StateSync P}
    {awaiting : List P.Snapshot} (h : VerdictRun checks Valid items s awaiting)
    (hunc : ∀ item ∈ items, Uncontested Valid item) :
    ∀ item ∈ items, ∀ snapshot, .applySnapshot snapshot ∈ item.call.result.emitted →
      Valid snapshot = true := by
  induction h with
  | start => simp
  | verdict asked rest t r u hrun hperm hstep ih =>
      have hprefix := fun item hitem => hunc item (List.mem_append_left _ hitem)
      intro item hitem snapshot hmem
      rcases List.mem_append.mp hitem with hitem | hitem
      · exact ih hprefix item hitem snapshot hmem
      · obtain rfl := List.mem_singleton.mp hitem
        obtain ⟨sequence, t', pending, he, hl, rfl⟩ := (syncStep_rule hstep).applied_snapshot hmem
        obtain ⟨rfl, hvalid, -⟩ := SyncEvent.completeSnapshotVerification.inj he
        exact hrun.sound hprefix asked (hperm.mem_iff.mpr (by simp)) hvalid pending hl
  | other e r u _ he hstep ih =>
      have hprefix := fun item hitem => hunc item (List.mem_append_left _ hitem)
      intro item hitem snapshot hmem
      rcases List.mem_append.mp hitem with hitem | hitem
      · exact ih hprefix item hitem snapshot hmem
      · obtain rfl := List.mem_singleton.mp hitem
        obtain ⟨_, _, _, rfl, -, -⟩ := (syncStep_rule hstep).applied_snapshot hmem
        exact absurd trivial he

/-- An invalid snapshot is overwritten by a valid one with its number, which is applied once it is
found valid; the verdict on the other comes last. -/
theorem VerdictRun.applies_only_valid_once :
    ∃ items s awaiting,
      VerdictRun (P := .plain) .off (fun x => x.content == 1) items s awaiting ∧
      items.map (fun item => (item.awaiting.length, item.call.event)) =
        [(0, .handleSnapshot ⟨2, 5, []⟩ 9 1), (1, .handleSnapshot ⟨1, 5, []⟩ 0 2),
          (2, .completeSnapshotVerification 5 true 3),
          (1, .completeSnapshotVerification 5 false 4)] ∧
      (∃ item ∈ items, .applySnapshot ⟨1, 5, []⟩ ∈ item.call.result.emitted) ∧
      ∀ item ∈ items, ∀ snapshot, .applySnapshot snapshot ∈ item.call.result.emitted →
        (snapshot.content == 1) = true := by
  have hreceived : VerdictRun (P := .plain) .off (fun x => x.content == 1) _ _
      [⟨2, 5, []⟩, ⟨1, 5, []⟩] :=
    VerdictRun.other (P := .plain) (.handleSnapshot ⟨1, 5, []⟩ 0 2) _ _
      (VerdictRun.other (P := .plain) (.handleSnapshot ⟨2, 5, []⟩ 9 1) _ _ (.start 30 10)
        (by simp [SyncEvent.IsVerdict]) rfl)
      (by simp [SyncEvent.IsVerdict]) rfl
  have hrun := VerdictRun.verdict (P := .plain) ⟨2, 5, []⟩ [] 4 _ _
    (VerdictRun.verdict (P := .plain) ⟨1, 5, []⟩ [⟨2, 5, []⟩] 3 _ _ hreceived
      (List.Perm.swap _ _ _) rfl) (List.Perm.refl _) rfl
  refine ⟨_, _, _, hrun, rfl, ⟨_, List.mem_append_left _ List.mem_concat_self, ?_⟩,
    hrun.applies_only_valid ?_⟩
  · exact List.mem_singleton.mpr rfl
  · simp only [List.nil_append, List.mem_append, List.mem_singleton, or_imp, forall_and, forall_eq]
    refine ⟨⟨⟨?_, ?_⟩, ?_⟩, ?_⟩
    · intro snapshot peer t _ _ other hother
      cases hother
    · rintro snapshot peer t hevent hinvalid
      cases hevent
      cases hinvalid
    · rintro snapshot peer t hevent
      cases hevent
    · rintro snapshot peer t hevent
      cases hevent

/-- Two snapshots under number 5: the valid one is asked about, the other one is applied. -/
theorem verdict_applies_overwriting_snapshot :
    ∃ items s awaiting,
      VerdictRun (P := .plain) .off (fun x => x.content == 1) items s awaiting ∧
      ∃ item ∈ items, ∃ snapshot, .applySnapshot snapshot ∈ item.call.result.emitted ∧
        (snapshot.content == 1) = false := by
  have hreceived : VerdictRun (P := .plain) .off (fun x => x.content == 1) _ _
      [⟨1, 5, []⟩, ⟨2, 5, []⟩] :=
    VerdictRun.other (P := .plain) (.handleSnapshot ⟨2, 5, []⟩ 9 2) _ _
      (VerdictRun.other (P := .plain) (.handleSnapshot ⟨1, 5, []⟩ 0 1) _ _ (.start 30 10)
        (by simp [SyncEvent.IsVerdict]) rfl)
      (by simp [SyncEvent.IsVerdict]) rfl
  refine ⟨_, _, _, VerdictRun.verdict (P := .plain) ⟨1, 5, []⟩ [⟨2, 5, []⟩] 3 _ _
    hreceived (List.Perm.refl _) rfl, _, List.mem_concat_self,
    ⟨2, 5, []⟩, ?_, rfl⟩
  exact List.mem_singleton.mpr rfl

/-- The condition is sharp: when an invalid snapshot is received while a valid one with its
number awaits its verdict, that verdict returns the invalid one for application. -/
theorem VerdictRun.contested_applies_invalid {items : List (AwaitedCall P)} {s : StateSync P}
    {awaiting : List P.Snapshot} (h : VerdictRun checks Valid items s awaiting)
    {snapshot other : P.Snapshot} (hother : other ∈ awaiting)
    (hseq : P.sequenceNumber other = P.sequenceNumber snapshot) (hvalid : Valid other = true)
    (peer : P.PeerId) (t : Instant) :
    ∃ item₁ item₂ u awaiting', item₁.call.event = .handleSnapshot snapshot peer t ∧
      VerdictRun checks Valid (items ++ [item₁] ++ [item₂]) u awaiting' ∧
      .applySnapshot snapshot ∈ item₂.call.result.emitted := by
  have hreceived : VerdictRun checks Valid _ (s.handleSnapshot snapshot peer t).2 _ :=
    .other (.handleSnapshot snapshot peer t) (.action (.ok (.verifySnapshot snapshot))) _ h
      (by simp [SyncEvent.IsVerdict]) rfl
  obtain ⟨front, back, hsplit⟩ := List.append_of_mem hother
  have hperm : (awaiting ++ [snapshot]).Perm (other :: (front ++ back ++ [snapshot])) := by
    rw [hsplit]
    simp
  have hl : (s.handleSnapshot snapshot peer t).2.pendingSnapshots.lookup
      (P.sequenceNumber other) = some ⟨snapshot, peer, t⟩ := by
    rw [hseq]
    exact AList.lookup_insert _
  by_cases hm : (s.handleSnapshot snapshot peer t).2.missingTransactions snapshot = []
  · have hstep : SyncStep checks _ _ _ _ := .snapshotComplete _ _ t _ hl hm
    rw [← hvalid] at hstep
    exact ⟨_, _, _, _, rfl, .verdict other _ t _ _ hreceived hperm hstep.execution,
      by simp [SyncResult.emitted]⟩
  · have hstep : SyncStep checks _ _ _ _ := .snapshotIncomplete _ _ t _ hl hm
    rw [← hvalid] at hstep
    exact ⟨_, _, _, _, rfl, .verdict other _ t _ _ hreceived hperm hstep.execution,
      by simp [SyncResult.emitted]⟩

end SilverNetwork
