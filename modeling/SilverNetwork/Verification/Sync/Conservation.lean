import SilverNetwork.Verification.Sync.Semantics

/-! Conservation of received transactions. An observer of the calls alone remembers what
has been received since the last application or reset; the store holds exactly that. -/

namespace SilverNetwork

open StateSync

variable {P : Platform} {checks : OverflowChecks}

/-- What an observer remembers after one more call. -/
def absorb (received : List P.Transaction) (c : SyncCall P) : List P.Transaction :=
  match c.event, c.result with
  | .handleTransactions _ _ _, .action (.ok (.applyTransactions _)) => []
  | .handleTransactions transactions _ _, _ => received ++ transactions
  | .reset, _ => []
  | _, _ => received

/-- The transactions received since the last `ApplyTransactions` action or reset. -/
def received (calls : List (SyncCall P)) : List P.Transaction := calls.foldl absorb []

/-- The store holds exactly what the observer remembers. -/
def Conserved (past : List P.Transaction) (s : StateSync P) : Prop :=
  KeyedStore.Holds P.digest past s.downloadedTransactions

theorem Conserved.step (hinj : Function.Injective P.digest) {past : List P.Transaction}
    {s t : StateSync P} {e : SyncEvent P} {r : SyncResult P} (h : Conserved past s)
    (hstep : SyncStep checks s e r t) : Conserved (absorb past ⟨s, e, r, t⟩) t := by
  cases hstep with
  | transactionsComplete => exact KeyedStore.holds_empty P.digest
  | transactionsPartial transactions => exact KeyedStore.Holds.store P.digest h hinj transactions
  | transactionsUnsolicited transactions =>
      exact KeyedStore.Holds.store P.digest h hinj transactions
  | resetDone => exact KeyedStore.holds_empty P.digest
  | _ => exact h

theorem run_conserved (hinj : Function.Injective P.digest) {timeout : Duration}
    {maxConcurrentRequests : UInt64} {calls : List (SyncCall P)} {s : StateSync P}
    (h : (syncMachine P checks).Run (withConfig timeout maxConcurrentRequests) calls s) :
    Conserved (received calls) s := by
  apply h.invariant_history (KeyedStore.holds_empty P.digest)
  intro past c hmakes hpast
  exact hpast.step hinj (syncMachine_makes_iff.mp hmakes)

/-- Only an answer that completes a download returns transactions to apply: all that are
stored once it has been stored itself. -/
theorem SyncStep.applied_transactions {s u : StateSync P} {e : SyncEvent P} {r : SyncResult P}
    (h : SyncStep checks s e r u) {applied : List P.Transaction}
    (hmem : .applyTransactions applied ∈ r.emitted) :
    ∃ batch peer order, e = .handleTransactions batch peer order ∧
      applied.Perm (storeTransactions batch s.downloadedTransactions).values ∧
      u.state = .applyingTransactions applied.length := by
  cases h with
  | transactionsComplete batch peer order =>
      simp only [SyncResult.emitted, List.mem_singleton, SyncAction.applyTransactions.injEq] at hmem
      subst hmem
      refine ⟨batch, peer, order, rfl, order.perm _, ?_⟩
      simp
  | timeoutsHandled => simp [SyncResult.emitted, handleTimeouts] at hmem
  | _ => simp [SyncResult.emitted] at hmem

/-- Each `ApplyTransactions` carries the distinct transactions received since the last one
or reset, each once, and whatever was received and not yet emitted or reset is stored. -/
theorem received_transactions_conserved (hinj : Function.Injective P.digest)
    {timeout : Duration} {maxConcurrentRequests : UInt64} {calls : List (SyncCall P)}
    {s : StateSync P}
    (h : (syncMachine P checks).Run (withConfig timeout maxConcurrentRequests) calls s) :
    (∀ before c after, calls = before ++ c :: after →
      ∀ applied, .applyTransactions applied ∈ c.result.emitted →
        ∃ batch peer order, c.event = .handleTransactions batch peer order ∧
          (applied.map P.digest).Nodup ∧
          (∀ tx, tx ∈ applied ↔ tx ∈ received before ++ batch) ∧
          c.post.state = .applyingTransactions applied.length) ∧
    ∀ tx, s.downloadedTransactions.lookup (P.digest tx) = some tx ↔ tx ∈ received calls := by
  refine ⟨?_, (run_conserved hinj h).lookup_iff⟩
  intro before c after hcalls applied hmem
  obtain ⟨hrun, hmakes⟩ := h.split hcalls
  obtain ⟨batch, peer, order, he, hperm, hstate⟩ :=
    (syncMachine_makes_iff.mp hmakes).applied_transactions hmem
  have hholds : KeyedStore.Holds P.digest (received before ++ batch)
      (storeTransactions batch c.pre.downloadedTransactions) :=
    KeyedStore.Holds.store P.digest (run_conserved hinj hrun) hinj batch
  refine ⟨batch, peer, order, he, ?_, ?_, hstate⟩
  · exact (hperm.map P.digest).nodup_iff.mpr (hholds.keyed.nodup_map_key P.digest)
  · intro tx
    rw [hperm.mem_iff, hholds.mem_values_iff]

/-- Two transactions, one of them received twice, complete a download; a third stays stored. -/
theorem received_transactions_conserved_plain :
    ∃ calls s, (syncMachine .plain .on).Run (withConfig 30 10) calls s ∧
      (∃ c ∈ calls, .applyTransactions [8, 7] ∈ c.result.emitted) ∧ received calls = [9] ∧
      ∀ tx, s.downloadedTransactions.lookup tx = some tx ↔ tx ∈ received calls := by
  have hstart := (Machine.Run.start (M := syncMachine .plain .on)
    (s := withConfig 30 10)).of_step (e := .startTransactionDownload 1 2 0 0 0) rfl
  have happlied := hstart.of_step (e := .handleTransactions [7, 7, 8] 0 (.stored ℕ)) rfl
  have hrun := happlied.of_step (e := .handleTransactions [9] 1 (.stored ℕ)) rfl
  refine ⟨_, _, hrun, ⟨_, List.mem_append_left _ (List.mem_append_right _
    (List.mem_singleton.mpr rfl)), List.mem_singleton.mpr rfl⟩, rfl, ?_⟩
  exact (received_transactions_conserved Function.injective_id hrun).2

end SilverNetwork
