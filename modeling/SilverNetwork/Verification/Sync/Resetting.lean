import SilverNetwork.Verification.Sync.Renaming

/-! What `reset` leaves behind. After it a machine answers every sequence of calls as a new one
does; only the ids of its requests go on from where they were. -/

namespace SilverNetwork

open StateSync

variable {P : Platform} {checks : OverflowChecks} {offset : UInt64}

/-- What the caller sees of the two calls is the same: the result, and then the state and the
progress that the machine reports. -/
structure SameToCaller (checks : OverflowChecks) (c c' : SyncCall P) : Prop where
  result : c.result.SameUpToOrder c'.result
  state : c.post.state = c'.post.state
  progress : c.post.getProgress checks = c'.post.getProgress checks

/-! ## The next id -/

theorem SyncStep.nextRequestId {s t : StateSync P} {e : SyncEvent P} {r : SyncResult P}
    (h : SyncStep checks s e r t) :
    t.nextRequestId = s.nextRequestId + UInt64.ofNat (issuedBy ⟨s, e, r, t⟩).length := by
  cases h with
  | transactionsRequested fromSequence toSequence peer t₁ t₂ next hfree hnext =>
      exact OverflowChecks.add_eq_some hnext
  | _ => exact (add_zero _).symm

/-- Each request issued takes one id, modulo `2^64`. -/
theorem run_nextRequestId {s t : StateSync P} {calls : List (SyncCall P)}
    (h : (syncMachine P checks).Run s calls t) :
    t.nextRequestId = s.nextRequestId + UInt64.ofNat (issued calls).length := by
  induction h with
  | start => exact (add_zero _).symm
  | @call calls c _ hmakes ih =>
      have hstep := (syncMachine_makes_iff.mp hmakes).nextRequestId
      rw [hstep, ih, issued_concat, List.length_append, UInt64.ofNat_add, add_assoc]

theorem toNat_nextRequestId_le {s t : StateSync P} {calls : List (SyncCall P)}
    (h : (syncMachine P checks).Run s calls t) :
    t.nextRequestId.toNat ≤ s.nextRequestId.toNat + (issued calls).length := by
  rw [run_nextRequestId h, UInt64.toNat_add, UInt64.toNat_ofNat']
  omega

/-! ## Whole runs -/

/-- A machine with shifted ids can follow a whole run, as long as its own ids do not run out. -/
theorem StateSync.SameUpToIds.run {s s' t : StateSync P} {calls : List (SyncCall P)}
    (h : s.SameUpToIds offset s') (hrun : (syncMachine P checks).Run s calls t)
    (hroom : s'.nextRequestId.toNat + (issued calls).length < 2 ^ 64) {events : List (SyncEvent P)}
    (hevents : List.Forall₂ (fun c e' => c.event.SameCallShifted offset e') calls events) :
    ∃ calls' t', (syncMachine P checks).Run s' calls' t' ∧ calls'.map Call.event = events ∧
      List.Forall₂ (SameToCaller checks) calls calls' := by
  have hanswers : ∀ before c after u e', calls = before ++ c :: after →
      StateSync.SameUpToIds offset c.pre u → c.event.SameCallShifted offset e' →
      ∃ r' u', (syncMachine P checks).step u e' = some (r', u') ∧
        c.result.SameUpToOrder r' ∧ StateSync.SameUpToIds offset c.post u' := by
    intro before c after u e' hcut hpre hevent
    obtain ⟨hbefore, hmakes⟩ := hrun.split hcut
    have hnext : u.nextRequestId = s'.nextRequestId + UInt64.ofNat (issued before).length := by
      rw [← hpre.nextId, ← h.nextId, run_nextRequestId hbefore]
      exact add_right_comm _ _ _
    have hfree : issuedBy c ≠ [] → (checks.add u.nextRequestId 1).isSome := by
      intro hissues
      have hone := List.length_pos_iff.mpr hissues
      rw [hcut, issued, List.flatMap_append, List.flatMap_cons, List.length_append,
        List.length_append] at hroom
      have hlt : u.nextRequestId.toNat + (1 : UInt64).toNat < 2 ^ 64 := by
        rw [hnext, UInt64.toNat_add, UInt64.toNat_ofNat', issued, UInt64.toNat_one]
        omega
      rw [OverflowChecks.add_of_lt checks hlt]
      rfl
    obtain ⟨r', u', hstep, hresult, hpost⟩ :=
      (syncMachine_makes_iff.mp hmakes).renamed hpre hevent fun hissues _ => hfree hissues
    exact ⟨r', u', hstep.execution, hresult, hpost⟩
  obtain ⟨calls', t', hrun', hmap, hcalls, -⟩ := hrun.follow h hevents hanswers
  refine ⟨calls', t', hrun', hmap, hcalls.imp ?_⟩
  rintro c c' ⟨hresult, hpost⟩
  exact ⟨hresult, hpost.state, hpost.getProgress⟩

theorem StateSync.withConfig_sameUpToIds_reset (s : StateSync P) :
    (withConfig s.timeout s.maxConcurrentRequests).SameUpToIds s.nextRequestId s.reset :=
  ⟨rfl, .refl _, .empty, .refl _, .refl _, rfl, rfl, zero_add _⟩

theorem StateSync.reset_sameUpToIds_withConfig (s : StateSync P) :
    s.reset.SameUpToIds (-s.nextRequestId) (withConfig s.timeout s.maxConcurrentRequests) :=
  ⟨rfl, .refl _, .empty, .refl _, .refl _, rfl, rfl, add_neg_cancel _⟩

/-- Whatever a machine did before it was reset, the runs that it can make afterwards are those
of a new machine, call by call and in both directions. -/
theorem reset_refreshes {timeout : Duration} {maxConcurrentRequests : UInt64}
    {past : List (SyncCall P)} {s : StateSync P}
    (h : (syncMachine P checks).Run (withConfig timeout maxConcurrentRequests) past s) :
    (∀ calls t events, (syncMachine P checks).Run s.reset calls t →
      (issued past).length + (issued calls).length < 2 ^ 64 →
      List.Forall₂ (fun c e' => c.event.SameCallShifted (-s.nextRequestId) e') calls events →
      ∃ calls' t',
        (syncMachine P checks).Run (withConfig s.timeout s.maxConcurrentRequests) calls' t' ∧
        calls'.map Call.event = events ∧ List.Forall₂ (SameToCaller checks) calls calls') ∧
    (∀ calls t events,
      (syncMachine P checks).Run (withConfig s.timeout s.maxConcurrentRequests) calls t →
      (issued past).length + (issued calls).length < 2 ^ 64 →
      List.Forall₂ (fun c e' => c.event.SameCallShifted s.nextRequestId e') calls events →
      ∃ calls' t', (syncMachine P checks).Run s.reset calls' t' ∧
        calls'.map Call.event = events ∧ List.Forall₂ (SameToCaller checks) calls calls') := by
  have hpast : s.nextRequestId.toNat ≤ 0 + (issued past).length := toNat_nextRequestId_le h
  refine ⟨?_, ?_⟩
  · intro calls t events hrun hissued hevents
    have hroom : (0 : UInt64).toNat + (issued calls).length < 2 ^ 64 := by
      rw [UInt64.toNat_zero]
      omega
    exact s.reset_sameUpToIds_withConfig.run hrun hroom hevents
  · intro calls t events hrun hissued hevents
    have hroom : s.nextRequestId.toNat + (issued calls).length < 2 ^ 64 := by omega
    exact s.withConfig_sameUpToIds_reset.run hrun hroom hevents

/-- After one request and a reset, a download is issued and retried as by a new machine. -/
theorem reset_refreshes_plain :
    ∃ past s calls t calls' t', (syncMachine .plain .on).Run (withConfig 30 10) past s ∧
      (syncMachine .plain .on).Run (withConfig 30 10) calls t ∧
      calls.flatMap (·.result.emitted) = [.retryTransactionRequest 1 2 0] ∧
      (syncMachine .plain .on).Run (reset s) calls' t' ∧ s.nextRequestId = 1 ∧
      List.Forall₂ (SameToCaller .on) calls calls' := by
  have hpast := (Machine.Run.start (M := syncMachine .plain .on)
    (s := withConfig 30 10)).of_step (e := .startTransactionDownload 1 2 0 0 0) rfl
  have hrun := ((Machine.Run.start (M := syncMachine .plain .on)
    (s := withConfig 30 10)).of_step (e := .startTransactionDownload 1 2 0 0 0) rfl).of_step
      (e := .handleTimeouts (.frozen 100)) rfl
  obtain ⟨calls', t', hrun', -, hsame⟩ := (reset_refreshes hpast).2 _ _ _ hrun (by decide)
    (.cons (.same _ fun _ => nofun) (.cons (.timeouts _ (.frozen 100) rfl rfl fun _ => rfl) .nil))
  exact ⟨_, _, _, _, calls', t', hpast, hrun, rfl, hrun', rfl, hsame⟩

end SilverNetwork
