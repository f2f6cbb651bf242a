import SilverNetwork.Verification.Sync.Timeouts

/-! The books of the request tables. A ledger read off the calls alone says which requests
were issued and how often each was reissued; every pending request agrees with it. -/

namespace SilverNetwork

open StateSync

variable {P : Platform} {checks : OverflowChecks}

/-! ## The ledger -/

/-- The range and the peer of a transaction request. -/
abbrev RequestTarget (P : Platform) : Type := UInt64 × UInt64 × P.PeerId

def TransactionRequest.target (request : TransactionRequest P) : RequestTarget P :=
  (request.fromSequence, request.toSequence, request.peerId)

/-- The transaction requests that the actions of a call send once more. -/
def SyncResult.retrying (r : SyncResult P) : List (RequestTarget P) :=
  r.emitted.filterMap fun
    | .retryTransactionRequest fromSequence toSequence peer => some (fromSequence, toSequence, peer)
    | _ => none

/-- The transaction request that a call issues, if it issues one. -/
def issuedBy (c : SyncCall P) : List (RequestTarget P) :=
  match c.event, c.result with
  | .startTransactionDownload fromSequence toSequence peer _ _, .unit (.ok ()) =>
      [(fromSequence, toSequence, peer)]
  | _, _ => []

/-- The transaction requests issued so far. The position of each is its id. -/
def issued (calls : List (SyncCall P)) : List (RequestTarget P) := calls.flatMap issuedBy

/-- The transaction requests that a call reissues, under their ids. -/
def reissuedBy (c : SyncCall P) : List (TransactionRequestId × TransactionRequest P) :=
  match c.event with
  | .handleTimeouts readings => (c.pre.sweepTransactionRequests readings).retried
  | _ => []

def timesReissued (calls : List (SyncCall P)) (id : TransactionRequestId) : ℕ :=
  ((calls.flatMap reissuedBy).map Prod.fst).count id

theorem issued_concat (calls : List (SyncCall P)) (c : SyncCall P) :
    issued (calls ++ [c]) = issued calls ++ issuedBy c := by
  simp [issued]

theorem timesReissued_concat (calls : List (SyncCall P)) (c : SyncCall P)
    (id : TransactionRequestId) :
    timesReissued (calls ++ [c]) id =
      timesReissued calls id + ((reissuedBy c).map Prod.fst).count id := by
  simp [timesReissued]

/-- The retry actions of a call are those of the requests that it reissues. -/
theorem SyncStep.retrying_eq {s t : StateSync P} {e : SyncEvent P} {r : SyncResult P}
    (h : SyncStep checks s e r t) :
    r.retrying = (reissuedBy ⟨s, e, r, t⟩).map fun entry => entry.2.target := by
  cases h with
  | timeoutsHandled readings =>
      simp [SyncResult.retrying, SyncResult.emitted, handleTimeouts, reissuedBy,
        List.filterMap_append, List.filterMap_map, TransactionRequest.target]
  | _ => simp [SyncResult.retrying, SyncResult.emitted, reissuedBy]

/-! ## Bookkeeping of the state -/

namespace StateSync

/-- The request tables respect their limits, and every entry lies under its own key. -/
structure Bookkept (s : StateSync P) : Prop where
  snapshotLimit : s.pendingSnapshotRequests.len ≤ s.maxConcurrentRequests.toNat
  transactionLimit : s.pendingTransactionRequests.len ≤ s.maxConcurrentRequests.toNat
  retries : s.RetriesBounded
  stored : ∀ sequence pending, s.pendingSnapshots.lookup sequence = some pending →
    P.sequenceNumber pending.snapshot = sequence
  verifying : ∀ sequence, s.state = .verifyingSnapshot sequence → sequence ∈ s.pendingSnapshots

theorem bookkept_withConfig (timeout : Duration) (maxConcurrentRequests : UInt64) :
    Bookkept (withConfig (P := P) timeout maxConcurrentRequests) where
  snapshotLimit := Nat.zero_le _
  transactionLimit := Nat.zero_le _
  retries := ⟨RetryTable.within_empty, RetryTable.within_empty⟩
  stored sequence pending hl := by simp [withConfig] at hl
  verifying sequence hstate := by simp [withConfig] at hstate

end StateSync

theorem SyncStep.bookkept {s t : StateSync P} {e : SyncEvent P} {r : SyncResult P}
    (hstep : SyncStep checks s e r t) (h : s.Bookkept) : t.Bookkept := by
  have hretries := hstep.retriesBounded h.retries
  cases hstep with
  | alreadySyncing | snapshotUnknown => exact h
  | snapshotLimit =>
      exact ⟨h.snapshotLimit, h.transactionLimit, hretries, h.stored, by simp⟩
  | snapshotRequested target peer t₁ t₂ hsync hroom =>
      refine ⟨?_, h.transactionLimit, hretries, h.stored, by simp⟩
      exact (HashMap.len_insert_le _ _ _).trans hroom
  | snapshotReceived snapshot peer t₁ =>
      refine ⟨?_, h.transactionLimit, hretries, ?_, ?_⟩
      · exact (HashMap.len_erase_le _ _).trans h.snapshotLimit
      · intro sequence pending hl
        rw [HashMap.lookup_insert_eq] at hl
        split at hl
        · rename_i hsequence
          rw [← Option.some.inj hl, hsequence]
        · exact h.stored sequence pending hl
      · intro sequence hstate
        obtain rfl := SyncState.verifyingSnapshot.inj hstate
        exact (AList.mem_insert _).mpr (Or.inl rfl)
  | snapshotRejected | snapshotComplete | snapshotIncomplete =>
      refine ⟨h.snapshotLimit, h.transactionLimit, hretries, ?_, by simp⟩
      intro sequence pending hl
      rw [HashMap.lookup_erase_eq] at hl
      split at hl
      · simp at hl
      · exact h.stored sequence pending hl
  | transactionLimit =>
      exact ⟨h.snapshotLimit, h.transactionLimit, hretries, h.stored, by simp⟩
  | transactionsRequested fromSequence toSequence peer t₁ t₂ next hroom =>
      refine ⟨h.snapshotLimit, ?_, hretries, h.stored, by simp⟩
      exact (HashMap.len_insert_le _ _ _).trans hroom
  | transactionsComplete | transactionsApplied =>
      exact ⟨h.snapshotLimit, h.transactionLimit, hretries, h.stored, by simp⟩
  | transactionsPartial | transactionsUnsolicited =>
      exact ⟨h.snapshotLimit, h.transactionLimit, hretries, h.stored, h.verifying⟩
  | timeoutsHandled readings =>
      refine ⟨?_, ?_, hretries, h.stored, ?_⟩
      · exact (RetryTable.sweep_len_le _ _ _ _ _ _).trans h.snapshotLimit
      · exact (RetryTable.sweep_len_le _ _ _ _ _ _).trans h.transactionLimit
      · intro sequence hstate
        apply h.verifying sequence
        simp only [handleTimeouts] at hstate
        split at hstate
        · exact hstate
        · simp at hstate
  | resetDone =>
      exact ⟨Nat.zero_le _, Nat.zero_le _, hretries, by simp [reset], by simp [reset]⟩

/-! ## Agreement with the ledger -/

/-- The pending requests are those of the ledger, each with its own range, peer and number
of retries. -/
structure Ledgered (past : List (SyncCall P)) (s : StateSync P) : Prop where
  nextId : s.nextRequestId.toNat = (issued past).length
  pending : ∀ id request, s.pendingTransactionRequests.lookup id = some request →
    request.id = id ∧ (issued past)[id.toNat]? = some request.target ∧
      timesReissued past id = request.retries
  unissued : ∀ id : TransactionRequestId, (issued past).length ≤ id.toNat →
    timesReissued past id = 0
  limit : ∀ id, timesReissued past id ≤ maxRetries
  reissued : ∀ entry ∈ past.flatMap reissuedBy,
    (issued past)[entry.1.toNat]? = some entry.2.target

theorem ledgered_withConfig (timeout : Duration) (maxConcurrentRequests : UInt64) :
    Ledgered [] (withConfig (P := P) timeout maxConcurrentRequests) where
  nextId := rfl
  pending id request hl := by simp [withConfig] at hl
  unissued _ _ := rfl
  limit _ := Nat.zero_le _
  reissued := by simp

/-- Every pending request has an id that was handed out before. -/
theorem Ledgered.id_lt {past : List (SyncCall P)} {s : StateSync P} (h : Ledgered past s)
    {id : TransactionRequestId} {request : TransactionRequest P}
    (hl : s.pendingTransactionRequests.lookup id = some request) : id < s.nextRequestId := by
  obtain ⟨_, htarget, _⟩ := h.pending id request hl
  obtain ⟨hlt, _⟩ := List.getElem?_eq_some_iff.mp htarget
  rw [UInt64.lt_iff_toNat_lt, h.nextId]
  exact hlt

theorem issued_concat_of_nil {c : SyncCall P} (h : issuedBy c = []) (past : List (SyncCall P)) :
    issued (past ++ [c]) = issued past := by
  rw [issued_concat, h, List.append_nil]

theorem timesReissued_concat_of_nil {c : SyncCall P} (h : reissuedBy c = [])
    (past : List (SyncCall P)) (id : TransactionRequestId) :
    timesReissued (past ++ [c]) id = timesReissued past id := by
  simp [timesReissued_concat, h]

/-- A call that neither issues nor reissues a request, nor adds a pending one, agrees. -/
theorem Ledgered.unchanged {past : List (SyncCall P)} {s t : StateSync P} {c : SyncCall P}
    (h : Ledgered past s) (hissued : issuedBy c = []) (hreissued : reissuedBy c = [])
    (hnext : t.nextRequestId = s.nextRequestId)
    (hpending : ∀ id request, t.pendingTransactionRequests.lookup id = some request →
      s.pendingTransactionRequests.lookup id = some request) : Ledgered (past ++ [c]) t := by
  have hsame := issued_concat_of_nil hissued past
  have htimes := timesReissued_concat_of_nil hreissued past
  refine ⟨?_, ?_, ?_, ?_, ?_⟩
  · rw [hnext, hsame]
    exact h.nextId
  · intro id request hl
    rw [hsame, htimes]
    exact h.pending id request (hpending id request hl)
  · intro id hle
    rw [hsame] at hle
    rw [htimes]
    exact h.unissued id hle
  · intro id
    rw [htimes]
    exact h.limit id
  · intro entry hentry
    rw [hsame]
    apply h.reissued
    simpa [hreissued] using hentry

/-- A request that is issued takes the next id, under which nothing was reissued. -/
theorem Ledgered.issue {past : List (SyncCall P)} {s t : StateSync P} {c : SyncCall P}
    (h : Ledgered past s) (request : TransactionRequest P) {next : UInt64}
    (hissued : issuedBy c = [request.target]) (hreissued : reissuedBy c = [])
    (hid : request.id = s.nextRequestId) (hretries : request.retries = 0)
    (hnext : next.toNat = s.nextRequestId.toNat + 1) (htnext : t.nextRequestId = next)
    (hpending : t.pendingTransactionRequests =
      s.pendingTransactionRequests.insert s.nextRequestId request) :
    Ledgered (past ++ [c]) t := by
  have hmore : issued (past ++ [c]) = issued past ++ [request.target] := by
    rw [issued_concat, hissued]
  have htimes := timesReissued_concat_of_nil hreissued past
  have hkept : ∀ (n : ℕ) (target : RequestTarget P), (issued past)[n]? = some target →
      (issued (past ++ [c]))[n]? = some target := by
    intro n target hn
    obtain ⟨hlt, _⟩ := List.getElem?_eq_some_iff.mp hn
    rw [hmore, List.getElem?_append_left hlt]
    exact hn
  refine ⟨?_, ?_, ?_, ?_, ?_⟩
  · rw [htnext, hnext, h.nextId, hmore]
    simp
  · intro id request' hl
    rw [hpending, HashMap.lookup_insert_eq] at hl
    rw [htimes]
    by_cases heq : id = s.nextRequestId
    · rw [if_pos heq] at hl
      obtain rfl := Option.some.inj hl
      subst heq
      refine ⟨hid, ?_, ?_⟩
      · rw [hmore, h.nextId]
        simp
      · rw [hretries]
        exact h.unissued s.nextRequestId (Nat.le_of_eq h.nextId.symm)
    · rw [if_neg heq] at hl
      obtain ⟨hown, htarget, hretried⟩ := h.pending id request' hl
      exact ⟨hown, hkept _ _ htarget, hretried⟩
  · intro id hle
    rw [htimes]
    apply h.unissued
    rw [hmore, List.length_append] at hle
    omega
  · intro id
    rw [htimes]
    exact h.limit id
  · intro entry hentry
    apply hkept
    apply h.reissued
    simpa [hreissued] using hentry

/-- The requests that handling timeouts reissues are the expired ones that may be. -/
theorem mem_reissuedBy_timeouts {s t : StateSync P} {readings : TimeoutReadings P}
    {r : SyncResult P} {id : TransactionRequestId} :
    id ∈ (reissuedBy ⟨s, .handleTimeouts readings, r, t⟩).map Prod.fst ↔
      ∃ request, s.pendingTransactionRequests.lookup id = some request ∧
        RetryTable.Expired s.timeout readings.now request ∧ request.retries < maxRetries :=
  RetryTable.mem_sweep_retried_keys _ _ _ _ _ _ id

/-- Each of them is reissued once. -/
theorem timesReissued_timeouts (past : List (SyncCall P)) (s t : StateSync P)
    (readings : TimeoutReadings P) (r : SyncResult P) (id : TransactionRequestId) :
    timesReissued (past ++ [⟨s, .handleTimeouts readings, r, t⟩]) id = timesReissued past id +
      if id ∈ (reissuedBy ⟨s, .handleTimeouts readings, r, t⟩).map Prod.fst then 1 else 0 := by
  have hnodup : ((reissuedBy ⟨s, .handleTimeouts readings, r, t⟩).map Prod.fst).Nodup :=
    RetryTable.sweep_retried_nodup _ _ _ _ _ _
  rw [timesReissued_concat, hnodup.count]

/-- A request that is left is pending as it was, or has been reissued. -/
theorem Ledgered.timeouts_pending {past : List (SyncCall P)} {s t : StateSync P}
    (h : Ledgered past s) {readings : TimeoutReadings P} {id : TransactionRequestId}
    {request' : TransactionRequest P}
    (hleft : (s.handleTimeouts readings).2.pendingTransactionRequests.lookup id = some request')
    (r : SyncResult P) :
    request'.id = id ∧ (issued past)[id.toNat]? = some request'.target ∧
      timesReissued (past ++ [⟨s, .handleTimeouts readings, r, t⟩]) id = request'.retries := by
  have hsweep : (s.pendingTransactionRequests.lookup id).bind _ = some request' :=
    (RetryTable.sweep_lookup _ _ _ _ _ _ id).symm.trans hleft
  obtain ⟨request, hl, hafter⟩ := Option.bind_eq_some_iff.mp hsweep
  obtain ⟨hid, htarget, hretried⟩ := h.pending id request hl
  rw [timesReissued_timeouts, hretried]
  by_cases hexpired : RetryTable.Expired s.timeout readings.now request
  · rw [if_pos hexpired, RetryTable.treat, Option.ite_none_right_eq_some] at hafter
    obtain ⟨hlt, heq⟩ := hafter
    obtain rfl := Option.some.inj heq
    refine ⟨hid, htarget, ?_⟩
    rw [if_pos (mem_reissuedBy_timeouts.mpr ⟨request, hl, hexpired, hlt⟩)]
    rfl
  · rw [if_neg hexpired] at hafter
    obtain rfl := Option.some.inj hafter
    have hnot : id ∉ (reissuedBy ⟨s, .handleTimeouts readings, r, t⟩).map Prod.fst := by
      intro hin
      obtain ⟨request', hl', hexpired', _⟩ := mem_reissuedBy_timeouts.mp hin
      obtain rfl := Option.some.inj (hl.symm.trans hl')
      exact hexpired hexpired'
    rw [if_neg hnot]
    exact ⟨hid, htarget, rfl⟩

/-- Handling timeouts reissues what the ledger says, under the same range and peer. -/
theorem Ledgered.timeouts {past : List (SyncCall P)} {s : StateSync P} (h : Ledgered past s)
    (readings : TimeoutReadings P) (r : SyncResult P) :
    Ledgered (past ++ [⟨s, .handleTimeouts readings, r, (s.handleTimeouts readings).2⟩])
      (s.handleTimeouts readings).2 := by
  have hsame : issued (past ++ [⟨s, .handleTimeouts readings, r, (s.handleTimeouts readings).2⟩]) =
      issued past := issued_concat_of_nil rfl past
  refine ⟨?_, ?_, ?_, ?_, ?_⟩
  · rw [hsame]
    exact h.nextId
  · intro id request' hl
    rw [hsame]
    exact h.timeouts_pending hl r
  · intro id hle
    rw [hsame] at hle
    rw [timesReissued_timeouts, if_neg]
    · exact h.unissued id hle
    · intro hin
      obtain ⟨request, hl, _⟩ := mem_reissuedBy_timeouts.mp hin
      have hlt := UInt64.lt_iff_toNat_lt.mp (h.id_lt hl)
      have hnext := h.nextId
      omega
  · intro id
    rw [timesReissued_timeouts]
    split
    · rename_i hin
      obtain ⟨request, hl, _, hlt⟩ := mem_reissuedBy_timeouts.mp hin
      obtain ⟨_, _, hretried⟩ := h.pending id request hl
      omega
    · exact h.limit id
  · intro entry hentry
    rw [hsame]
    rw [List.flatMap_append, List.mem_append] at hentry
    rcases hentry with hold | hnew
    · exact h.reissued entry hold
    · obtain ⟨id, request'⟩ := entry
      simp only [List.flatMap_cons, List.flatMap_nil, List.append_nil] at hnew
      obtain ⟨request, hl, _, _, rfl⟩ :=
        (RetryTable.mem_sweep_retried _ _ _ _ _ _ id request').mp hnew
      exact (h.pending id request hl).2.1

/-- As long as fewer than `2^64` requests are issued, every call keeps to the ledger. -/
theorem SyncStep.ledgered {past : List (SyncCall P)} {s t : StateSync P} {e : SyncEvent P}
    {r : SyncResult P} (hstep : SyncStep checks s e r t) (h : Ledgered past s)
    (hissued : (issued (past ++ [⟨s, e, r, t⟩])).length < 2 ^ 64) :
    Ledgered (past ++ [⟨s, e, r, t⟩]) t := by
  cases hstep with
  | transactionsRequested fromSequence toSequence peer t₁ t₂ next hroom hadd =>
      have hbound : (issued past).length + 1 < 2 ^ 64 := by
        simpa [issued_concat, issuedBy] using hissued
      have hnext : next.toNat = s.nextRequestId.toNat + 1 := by
        rw [OverflowChecks.add_eq_some hadd, UInt64.toNat_add, h.nextId]
        exact Nat.mod_eq_of_lt hbound
      exact h.issue ⟨s.nextRequestId, fromSequence, toSequence, peer, t₂, 0⟩
        rfl rfl rfl rfl hnext rfl rfl
  | timeoutsHandled readings => exact h.timeouts readings _
  | resetDone => exact h.unchanged rfl rfl rfl (by simp [reset])
  | _ => exact h.unchanged rfl rfl rfl (fun _ _ hl => hl)

theorem run_bookkept {timeout : Duration} {maxConcurrentRequests : UInt64}
    {calls : List (SyncCall P)} {s : StateSync P}
    (h : (syncMachine P checks).Run (withConfig timeout maxConcurrentRequests) calls s) :
    s.Bookkept := by
  apply h.invariant (bookkept_withConfig timeout maxConcurrentRequests)
  intro c hmakes hpre
  exact (syncMachine_makes_iff.mp hmakes).bookkept hpre

theorem run_ledgered {timeout : Duration} {maxConcurrentRequests : UInt64}
    {calls : List (SyncCall P)} {s : StateSync P}
    (h : (syncMachine P checks).Run (withConfig timeout maxConcurrentRequests) calls s)
    (hissued : (issued calls).length < 2 ^ 64) : Ledgered calls s := by
  induction h with
  | start => exact ledgered_withConfig timeout maxConcurrentRequests
  | @call calls c _ hmakes ih =>
      have hbefore : (issued calls).length < 2 ^ 64 := by
        rw [issued_concat, List.length_append] at hissued
        omega
      exact (syncMachine_makes_iff.mp hmakes).ledgered (ih hbefore) hissued

/-- What handling timeouts does to one pending transaction request. -/
def StateSync.TreatsRequest (s t : StateSync P) (readings : TimeoutReadings P)
    (reissuedBefore : ℕ) (id : TransactionRequestId) (request : TransactionRequest P) : Prop :=
  t.pendingTransactionRequests.lookup id =
    if RetryTable.Expired s.timeout readings.now request then
      if reissuedBefore < maxRetries then
        some { request with
          retries := request.retries + 1
          requestedAt := readings.transactionReissuedAt id }
      else none
    else some request

theorem Ledgered.treatsRequest {past : List (SyncCall P)} {s : StateSync P}
    (h : Ledgered past s) (readings : TimeoutReadings P) {id : TransactionRequestId}
    {request : TransactionRequest P}
    (hl : s.pendingTransactionRequests.lookup id = some request) :
    s.TreatsRequest (s.handleTimeouts readings).2 readings (timesReissued past id) id request := by
  obtain ⟨_, _, hretried⟩ := h.pending id request hl
  have hsweep : (s.handleTimeouts readings).2.pendingTransactionRequests.lookup id =
      (s.pendingTransactionRequests.lookup id).bind _ := RetryTable.sweep_lookup _ _ _ _ _ _ id
  rw [StateSync.TreatsRequest, hsweep, hl, hretried]
  rfl

/-- In every reachable state the request tables are in order, and over a whole run each issued
request is reissued at most three times, always as it was issued. -/
theorem requests_bookkept {timeout : Duration} {maxConcurrentRequests : UInt64}
    {calls : List (SyncCall P)} {s : StateSync P}
    (h : (syncMachine P checks).Run (withConfig timeout maxConcurrentRequests) calls s)
    (hissued : (issued calls).length < 2 ^ 64) :
    s.Bookkept ∧
      (∀ id request, s.pendingTransactionRequests.lookup id = some request →
        request.id = id ∧ id < s.nextRequestId) ∧
      (∀ c ∈ calls, c.result.retrying = (reissuedBy c).map fun entry => entry.2.target) ∧
      (∀ entry ∈ calls.flatMap reissuedBy,
        (issued calls)[entry.1.toNat]? = some entry.2.target) ∧
      (∀ id, timesReissued calls id ≤ 3) ∧
      ∀ before c after readings, calls = before ++ c :: after →
        c.event = .handleTimeouts readings →
        (∀ id request, c.pre.pendingTransactionRequests.lookup id = some request →
          c.pre.TreatsRequest c.post readings (timesReissued before id) id request) ∧
        ∀ sequence request, c.pre.pendingSnapshotRequests.lookup sequence = some request →
          ¬ RetryTable.Expired c.pre.timeout readings.now request →
            c.post.pendingSnapshotRequests.lookup sequence = some request := by
  have hledger := run_ledgered h hissued
  refine ⟨run_bookkept h, ?_, ?_, hledger.reissued, hledger.limit, ?_⟩
  · intro id request hl
    exact ⟨(hledger.pending id request hl).1, hledger.id_lt hl⟩
  · intro c hc
    exact (syncMachine_makes_iff.mp (h.makes hc)).retrying_eq
  · intro before c after readings hcalls he
    obtain ⟨hrun, hmakes⟩ := h.split hcalls
    have hbefore : (issued before).length < 2 ^ 64 := by
      rw [hcalls, issued, List.flatMap_append, List.length_append] at hissued
      exact Nat.lt_of_le_of_lt (Nat.le_add_right _ _) hissued
    have hstep := syncMachine_makes_iff.mp hmakes
    obtain ⟨s, e, r, t⟩ := c
    simp only at he hstep hrun ⊢
    subst he
    cases hstep with
    | timeoutsHandled =>
        refine ⟨?_, ?_⟩
        · intro id request hl
          exact (run_ledgered hrun hbefore).treatsRequest readings hl
        · intro sequence request hl hfresh
          have hsweep : (s.handleTimeouts readings).2.pendingSnapshotRequests.lookup sequence =
              (s.pendingSnapshotRequests.lookup sequence).bind _ :=
            RetryTable.sweep_lookup _ _ _ _ _ _ sequence
          rw [hsweep, hl, Option.bind_some, if_neg hfresh]

/-- A request that is never answered is sent three more times and dropped at the fourth
timeout. -/
theorem requests_bookkept_plain :
    ∃ calls s, (syncMachine .plain .on).Run (withConfig 30 10) calls s ∧
      issued calls = [(1, 2, 0)] ∧ s.Bookkept ∧ timesReissued calls 0 ≤ 3 ∧
      s.pendingTransactionRequests = ∅ := by
  have hrun := (((((Machine.Run.start (M := syncMachine .plain .on)
    (s := withConfig 30 10)).of_step (e := .startTransactionDownload 1 2 0 0 0) rfl).of_step
      (e := .handleTimeouts (.frozen 100)) rfl).of_step
      (e := .handleTimeouts (.frozen 200)) rfl).of_step
      (e := .handleTimeouts (.frozen 300)) rfl).of_step
      (e := .handleTimeouts (.frozen 400)) rfl
  obtain ⟨hbooks, _, _, _, hlimit, _⟩ := requests_bookkept hrun (by decide)
  exact ⟨_, _, hrun, rfl, hbooks, hlimit 0, rfl⟩

end SilverNetwork
