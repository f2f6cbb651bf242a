import SilverNetwork.Verification.Sync.Conservation

/-! What completes the download of a snapshot's missing transactions. Completion is decided
by a count derived from sequence numbers, which for a verified snapshot is one. -/

namespace SilverNetwork

open StateSync

variable {P : Platform} {checks : OverflowChecks}

/-- A message with transactions, and the order in which the store is read if it completes. -/
structure Answer (P : Platform) where
  transactions : List P.Transaction
  peerId : P.PeerId
  order : Enumeration P.Transaction

/-- The first list of transactions returned for application while `answers` come in. -/
def firstApplied (checks : OverflowChecks) :
    StateSync P → List (Answer P) → Option (List P.Transaction)
  | _, [] => none
  | s, answer :: rest =>
      match s.handleTransactions checks answer.transactions answer.peerId answer.order with
      | none => none
      | some (.ok (.applyTransactions applied), _) => some applied
      | some (_, next) => firstApplied checks next rest

def Covers (transactions : List P.Transaction) (digests : List P.TransactionDigest) : Prop :=
  ∀ d ∈ digests, ∃ tx ∈ transactions, P.digest tx = d

instance (transactions : List P.Transaction) (digests : List P.TransactionDigest) :
    Decidable (Covers transactions digests) :=
  inferInstanceAs (Decidable (∀ d ∈ digests, ∃ tx ∈ transactions, P.digest tx = d))

/-- The answer that completes a one-transaction download: the first one if anything is
stored already, else the first that is not empty. -/
def decisive (s : StateSync P) (answers : List (Answer P)) : Option (Answer P) :=
  answers.find? fun answer =>
    !(s.downloadedTransactions.len == 0 && answer.transactions.isEmpty)

@[simp] theorem expectedCount_self (checks : OverflowChecks) (sequence : UInt64) :
    expectedCount checks sequence sequence = some 1 := by
  simp [expectedCount]

/-- The store of a reachable machine files each transaction under its digest. -/
theorem run_keyed {timeout : Duration} {maxConcurrentRequests : UInt64}
    {calls : List (SyncCall P)} {s : StateSync P}
    (h : (syncMachine P checks).Run (withConfig timeout maxConcurrentRequests) calls s) :
    KeyedStore.Keyed P.digest s.downloadedTransactions := by
  refine h.invariant (I := fun s => KeyedStore.Keyed P.digest s.downloadedTransactions)
    (KeyedStore.keyed_empty P.digest) ?_
  intro c hmakes hkeyed
  obtain ⟨s, e, r, t⟩ := c
  have hstep : SyncStep checks s e r t := syncMachine_makes_iff.mp hmakes
  cases hstep with
  | transactionsComplete => exact KeyedStore.keyed_empty P.digest
  | transactionsPartial transactions | transactionsUnsolicited transactions =>
      exact KeyedStore.Keyed.store P.digest hkeyed transactions
  | resetDone => exact KeyedStore.keyed_empty P.digest
  | _ => exact hkeyed

/-- Where no stored transaction has one of the digests, the store covers them after a
message exactly when the message does. -/
theorem covers_values_iff {m : HashMap P.TransactionDigest P.Transaction}
    (hkeyed : KeyedStore.Keyed P.digest m) {digests : List P.TransactionDigest}
    (habsent : ∀ d ∈ digests, d ∉ m) (transactions : List P.Transaction) :
    Covers (storeTransactions transactions m).values digests ↔ Covers transactions digests := by
  apply forall₂_congr
  intro d hd
  have hvalues := KeyedStore.Keyed.mem_iff P.digest (hkeyed.store P.digest transactions) (k := d)
  rw [KeyedStore.mem_store, or_iff_left (habsent d hd)] at hvalues
  exact hvalues.symm

/-- While nothing is stored an empty message changes nothing. -/
theorem handleTransactions_of_empty (checks : OverflowChecks) {s : StateSync P}
    {sequence : UInt64} {t : Instant}
    (hstate : s.state = .downloadingTransactions sequence sequence t)
    (hstore : s.downloadedTransactions = ∅) (peer : P.PeerId) (order : Enumeration P.Transaction) :
    s.handleTransactions checks [] peer order = some (.ok .none, s) := by
  obtain ⟨_, _, _, _, _, _, _, _⟩ := s
  simp only at hstate hstore
  simp [handleTransactions, storeTransactions, hstate, hstore]

/-- Any other message completes the download. -/
theorem handleTransactions_of_nonempty (checks : OverflowChecks) {s : StateSync P}
    {sequence : UInt64} {t : Instant}
    (hstate : s.state = .downloadingTransactions sequence sequence t)
    {transactions : List P.Transaction}
    (hne : storeTransactions transactions s.downloadedTransactions ≠ ∅) (peer : P.PeerId)
    (order : Enumeration P.Transaction) :
    ∃ next, s.handleTransactions checks transactions peer order =
      some (.ok (.applyTransactions (order.arrange
        (storeTransactions transactions s.downloadedTransactions).values)), next) := by
  have hnonzero : (storeTransactions transactions s.downloadedTransactions).len ≠ 0 := by
    intro hzero
    exact hne (HashMap.len_eq_zero_iff.mp hzero)
  have hlen : 1 ≤ (storeTransactions transactions s.downloadedTransactions).len := by
    omega
  simp [handleTransactions, hstate, hlen]

theorem firstApplied_covers_iff {s : StateSync P} {sequence : UInt64} {t : Instant}
    (hstate : s.state = .downloadingTransactions sequence sequence t)
    (hkeyed : KeyedStore.Keyed P.digest s.downloadedTransactions)
    {digests : List P.TransactionDigest} (habsent : ∀ d ∈ digests, d ∉ s.downloadedTransactions)
    (answers : List (Answer P)) :
    (∀ applied, firstApplied checks s answers = some applied → Covers applied digests) ↔
      ∀ answer, decisive s answers = some answer → Covers answer.transactions digests := by
  induction answers with
  | nil => simp [firstApplied, decisive]
  | cons answer rest ih =>
      obtain ⟨transactions, peer, order⟩ := answer
      by_cases hempty : storeTransactions transactions s.downloadedTransactions = ∅
      · obtain ⟨rfl, hstore⟩ := (KeyedStore.store_eq_empty_iff P.digest).mp hempty
        have hskip : decisive s (⟨[], peer, order⟩ :: rest) = decisive s rest := by
          simp [decisive, hstore]
        have hsame := handleTransactions_of_empty checks hstate hstore peer order
        simp only [firstApplied, hsame, hskip]
        exact ih
      · have hfound : decisive s (⟨transactions, peer, order⟩ :: rest) =
            some ⟨transactions, peer, order⟩ := by
          have hne : s.downloadedTransactions ≠ ∅ ∨ transactions ≠ [] := not_and_or.mp fun h =>
            hempty ((KeyedStore.store_eq_empty_iff P.digest).mpr h.symm)
          rw [decisive, List.find?_cons_of_pos]
          simpa [HashMap.len_eq_zero_iff, not_and_or] using hne
        obtain ⟨next, hdone⟩ :=
          handleTransactions_of_nonempty checks hstate hempty peer order
        simp only [firstApplied, hdone, hfound, Option.some.injEq, forall_eq']
        rw [← covers_values_iff hkeyed habsent transactions]
        simp [Covers]

/-- A verified snapshot with transactions missing is completed by the first decisive answer,
so the first application covers the missing digests exactly when that answer does. -/
theorem first_application_covers_missing_iff {timeout : Duration}
    {maxConcurrentRequests : UInt64} {calls : List (SyncCall P)} {s : StateSync P}
    (h : (syncMachine P checks).Run (withConfig timeout maxConcurrentRequests) calls s)
    {sequence : UInt64} {pending : PendingSnapshot P}
    (hstored : s.pendingSnapshots.lookup sequence = some pending) (t : Instant)
    (hmissing : (s.completeSnapshotVerification sequence true t).2.state =
      .downloadingTransactions sequence sequence t) (answers : List (Answer P)) :
    (∀ applied, firstApplied checks (s.completeSnapshotVerification sequence true t).2 answers =
        some applied → Covers applied (s.missingTransactions pending.snapshot)) ↔
      ∀ answer, decisive s answers = some answer →
        Covers answer.transactions (s.missingTransactions pending.snapshot) := by
  have hsame : (s.completeSnapshotVerification sequence true t).2.downloadedTransactions =
      s.downloadedTransactions := by
    simp only [completeSnapshotVerification, hstored, if_true]
    split <;> rfl
  have hdecisive : decisive (s.completeSnapshotVerification sequence true t).2 answers =
      decisive s answers := by
    simp only [decisive, hsame]
  rw [← hdecisive]
  refine firstApplied_covers_iff hmissing (hsame ▸ run_keyed h) ?_ answers
  intro d hd
  rw [hsame]
  exact (mem_missingTransactions.mp hd).2

/-- A snapshot of two missing transactions whose only answer brings both. -/
theorem first_application_covers_missing_plain :
    ∃ calls s, (syncMachine .plain .on).Run (withConfig 30 10) calls s ∧
      firstApplied .on (s.completeSnapshotVerification 5 true 2).2 [⟨[1, 2], 0, .stored ℕ⟩] =
        some [2, 1] ∧
      Covers (P := .plain) [2, 1] (s.missingTransactions ⟨0, 5, [1, 2]⟩) := by
  have hrun := (Machine.Run.start (M := syncMachine .plain .on)
    (s := withConfig 30 10)).of_step (e := .handleSnapshot ⟨0, 5, [1, 2]⟩ 0 1) rfl
  have hcovers := (@first_application_covers_missing_iff .plain .on 30 10 _ _ hrun 5
    ⟨⟨0, 5, [1, 2]⟩, 0, 1⟩ rfl 2 rfl [⟨[1, 2], 0, .stored ℕ⟩]).mpr ?_
  · exact ⟨_, _, hrun, rfl, hcovers [2, 1] rfl⟩
  · intro answer hdecisive
    obtain rfl := Option.some.inj hdecisive
    decide

/-- A snapshot of two missing transactions is completed by an answer that brings only one. -/
theorem download_completes_with_missing_transaction :
    ∃ calls s, (syncMachine .plain .on).Run (withConfig 30 10) calls s ∧
      s.pendingSnapshots.lookup 5 = some ⟨⟨0, 5, [1, 2]⟩, 0, 1⟩ ∧
      (s.completeSnapshotVerification 5 true 2).2.state = .downloadingTransactions 5 5 2 ∧
      firstApplied .on (s.completeSnapshotVerification 5 true 2).2 [⟨[1], 0, .stored ℕ⟩] =
        some [1] ∧
      2 ∈ s.missingTransactions ⟨0, 5, [1, 2]⟩ ∧
      ¬ ∃ tx ∈ [1], Platform.plain.digest tx = 2 := by
  have hrun := (Machine.Run.start (M := syncMachine .plain .on)
    (s := withConfig 30 10)).of_step (e := .handleSnapshot ⟨0, 5, [1, 2]⟩ 0 1) rfl
  exact ⟨_, _, hrun, rfl, rfl, rfl, by decide, by decide⟩

end SilverNetwork
