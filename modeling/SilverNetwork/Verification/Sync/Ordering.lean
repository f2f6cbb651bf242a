import SilverNetwork.Verification.Sync.Renaming

/-! What the traversal order of the hash maps decides. Two runs that make the same calls in
different traversal orders stay equal up to the order of their maps' entries, and return
the same results up to the order of a list. -/

namespace SilverNetwork

open StateSync

variable {P : Platform} {checks : OverflowChecks}

/-- The same call with the same arguments and clock readings, in any traversal order. -/
inductive SyncEvent.SameCall : SyncEvent P → SyncEvent P → Prop where
  | same (e) : SameCall e e
  | transactions (transactions peer order order') :
      SameCall (.handleTransactions transactions peer order)
        (.handleTransactions transactions peer order')
  | timeouts (readings : TimeoutReadings P) (snapshotOrder transactionOrder) :
      SameCall (.handleTimeouts readings)
        (.handleTimeouts { readings with snapshotOrder, transactionOrder })

/-- The same machine, up to the order of the entries of its maps. -/
structure StateSync.SameUpToOrder (s s' : StateSync P) : Prop where
  state : s.state = s'.state
  snapshotRequests : HashMap.SameEntries s.pendingSnapshotRequests s'.pendingSnapshotRequests
  transactionRequests :
    HashMap.SameEntries s.pendingTransactionRequests s'.pendingTransactionRequests
  snapshots : HashMap.SameEntries s.pendingSnapshots s'.pendingSnapshots
  transactions : HashMap.SameEntries s.downloadedTransactions s'.downloadedTransactions
  timeout : s.timeout = s'.timeout
  limit : s.maxConcurrentRequests = s'.maxConcurrentRequests
  nextId : s.nextRequestId = s'.nextRequestId

theorem StateSync.SameUpToOrder.refl (s : StateSync P) : s.SameUpToOrder s :=
  ⟨rfl, .refl _, .refl _, .refl _, .refl _, rfl, rfl, rfl⟩

/-- Ids that are shifted by nothing are the same ids. -/
theorem TransactionRequest.shift_zero (request : TransactionRequest P) :
    request.shift 0 = request := by
  rw [shift, add_zero]

theorem StateSync.sameUpToOrder_iff {s s' : StateSync P} :
    s.SameUpToOrder s' ↔ s.SameUpToIds 0 s' := by
  have hkeys : Equiv.addRight (0 : UInt64) = Equiv.refl UInt64 := Equiv.ext add_zero
  have hvalues : TransactionRequest.shift (P := P) 0 = id :=
    funext TransactionRequest.shift_zero
  constructor
  · rintro ⟨hstate, hsnapshotRequests, hrequests, hsnapshots, htransactions, ht, hlimit, hid⟩
    refine ⟨hstate, hsnapshotRequests, ?_, hsnapshots, htransactions, ht, hlimit, by simpa⟩
    rwa [hkeys, hvalues, HashMap.renamedEntries_refl_iff]
  · rintro ⟨hstate, hsnapshotRequests, hrequests, hsnapshots, htransactions, ht, hlimit, hid⟩
    refine ⟨hstate, hsnapshotRequests, ?_, hsnapshots, htransactions, ht, hlimit,
      by simpa using hid⟩
    rwa [hkeys, hvalues, HashMap.renamedEntries_refl_iff] at hrequests

theorem SyncEvent.SameCall.shifted {e e' : SyncEvent P} (h : e.SameCall e') :
    e.SameCallShifted 0 e' := by
  cases h with
  | same =>
      cases e with
      | handleTimeouts readings => exact .timeouts _ _ rfl rfl fun id => by rw [add_zero]
      | _ => exact .same _ fun _ => nofun
  | transactions => exact .transactions _ _ _ _
  | timeouts => exact .timeouts _ _ rfl rfl fun id => by rw [add_zero]

/-! ## One call -/

/-- Whatever a call does, the same call in another traversal order can do likewise. -/
theorem SyncStep.reorder {s s' t : StateSync P} {e e' : SyncEvent P} {r : SyncResult P}
    (hstep : SyncStep checks s e r t) (h : s.SameUpToOrder s') (he : e.SameCall e') :
    ∃ r' t', SyncStep checks s' e' r' t' ∧ r.SameUpToOrder r' ∧ t.SameUpToOrder t' := by
  have hroom : (checks.add s.nextRequestId 1).isSome → (checks.add s'.nextRequestId 1).isSome := by
    rw [h.nextId]
    exact id
  simp only [sameUpToOrder_iff] at h ⊢
  exact hstep.renamed h he.shifted fun _ => hroom

/-! ## Whole runs -/

/-- Two runs that make the same calls return the same results up to the order of a list, so
each `ApplyTransactions` of one carries the transactions of the other's in some order. -/
theorem same_transactions_applied {timeout : Duration} {maxConcurrentRequests : UInt64}
    {calls calls' : List (SyncCall P)} {s s' : StateSync P}
    (h : (syncMachine P checks).Run (withConfig timeout maxConcurrentRequests) calls s)
    (h' : (syncMachine P checks).Run (withConfig timeout maxConcurrentRequests) calls' s')
    (hevents : List.Forall₂ (fun c c' => c.event.SameCall c'.event) calls calls') :
    List.Forall₂ (fun c c' => c.result.SameUpToOrder c'.result) calls calls' := by
  have hrelated := h.correspond (R := StateSync.SameUpToOrder) (Q := SyncResult.SameUpToOrder)
    h' (.refl _) hevents ?_
  · exact hrelated.1
  · intro c c' hmakes hmakes' hpre hevent
    have hstep' := (syncMachine_makes_iff.mp hmakes').execution
    obtain ⟨r, t, hstep, hresult, hpost⟩ :=
      (syncMachine_makes_iff.mp hmakes).reorder hpre hevent
    obtain ⟨rfl, rfl⟩ := Prod.mk.inj (Option.some.inj (hstep.execution.symm.trans hstep'))
    exact ⟨hresult, hpost⟩

/-- A download of two transactions whose store is read in the given order. -/
theorem exists_downloadTwo (order : Enumeration ℕ) :
    ∃ calls s, (syncMachine .plain .on).Run (withConfig 30 10) calls s ∧
      calls.map (·.event) =
        [.startTransactionDownload 1 2 0 0 0, .handleTransactions [7, 8] 0 order] ∧
      calls.flatMap (·.result.emitted) = [.applyTransactions (order.arrange [8, 7])] := by
  have hrun := ((Machine.Run.start (M := syncMachine .plain .on)
    (s := withConfig 30 10)).of_step (e := .startTransactionDownload 1 2 0 0 0) rfl).of_step
      (e := .handleTransactions [7, 8] 0 order) rfl
  exact ⟨_, _, hrun, rfl, rfl⟩

theorem sameCall_downloadTwo {calls calls' : List (SyncCall .plain)} (order order' : Enumeration ℕ)
    (h : calls.map (·.event) =
      [.startTransactionDownload 1 2 0 0 0, .handleTransactions [7, 8] 0 order])
    (h' : calls'.map (·.event) =
      [.startTransactionDownload 1 2 0 0 0, .handleTransactions [7, 8] 0 order']) :
    List.Forall₂ (fun c c' => c.event.SameCall c'.event) calls calls' := by
  have hevents : List.Forall₂ SyncEvent.SameCall (calls.map (·.event)) (calls'.map (·.event)) := by
    rw [h, h']
    exact .cons (.same _) (.cons (.transactions _ _ _ _) .nil)
  simpa only [List.forall₂_map_left_iff, List.forall₂_map_right_iff] using hevents

/-- A download read in the stored order and in the reversed one. -/
theorem same_transactions_applied_plain :
    ∃ calls calls' s s', (syncMachine .plain .on).Run (withConfig 30 10) calls s ∧
      (syncMachine .plain .on).Run (withConfig 30 10) calls' s' ∧
      calls.flatMap (·.result.emitted) = [.applyTransactions [8, 7]] ∧
      List.Forall₂ (fun c c' => c.result.SameUpToOrder c'.result) calls calls' := by
  obtain ⟨calls, s, hrun, hevents, happlied⟩ := exists_downloadTwo (.stored ℕ)
  obtain ⟨calls', s', hrun', hevents', _⟩ := exists_downloadTwo (.reversed ℕ)
  have hresults := same_transactions_applied hrun hrun' (sameCall_downloadTwo _ _ hevents hevents')
  exact ⟨calls, calls', s, s', hrun, hrun', happlied, hresults⟩

/-- Two transactions applied in one order by one node and in the other order by another. -/
theorem transactions_applied_in_other_order :
    ∃ calls calls' s s', (syncMachine .plain .on).Run (withConfig 30 10) calls s ∧
      (syncMachine .plain .on).Run (withConfig 30 10) calls' s' ∧
      List.Forall₂ (fun c c' => c.event.SameCall c'.event) calls calls' ∧
      calls.flatMap (·.result.emitted) = [.applyTransactions [8, 7]] ∧
      calls'.flatMap (·.result.emitted) = [.applyTransactions [7, 8]] := by
  obtain ⟨calls, s, hrun, hevents, happlied⟩ := exists_downloadTwo (.stored ℕ)
  obtain ⟨calls', s', hrun', hevents', happlied'⟩ := exists_downloadTwo (.reversed ℕ)
  exact ⟨calls, calls', s, s', hrun, hrun', sameCall_downloadTwo _ _ hevents hevents',
    happlied, happlied'⟩

end SilverNetwork
