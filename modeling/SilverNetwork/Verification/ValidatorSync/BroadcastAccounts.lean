import SilverNetwork.Verification.ValidatorSync.Accounts

/-! The two books of a manager on what its broadcasts have sent. Each send counts itself when it has
written its frame, and each broadcast counts all its sends when they have ended; where no broadcast
is under way the two agree. -/

namespace SilverNetwork

namespace ValidatorSync

open scoped UInt64.CommRing

variable {Address : Type} {checks : OverflowChecks} {texts : Texts Address}

/-! ## One task -/

/-- The frames that have been written, against those that their sends have counted, and those that
their broadcasts have counted, with their bytes. -/
noncomputable def broadcastLedger : Ledger Address (UInt64 × UInt64 × UInt64) where
  paid
    | .counted (.sent _ _) => (1, 0, 0)
    | .concluded result => (0, .ofNat result.successful, result.totalBytesSent)
    | _ => 0
  owed
    | .recorded (.sent _ length) => (1, 1, .ofNat length)
    | _ => 0
  sending _
    | .counting _ length => (1, 1, .ofNat length)
    | .sending (.finished (.ok (_, bytes))) => (0, 1, bytes)
    | .sending _ => 0
  receiving _ _ := 0

/-- What a send that has ended comes to when its broadcast collects it. -/
theorem collect_weight {send : SendTask Address} {tally tally' : BroadcastTally}
    (hended : send.ended = true) (h : tally.collect checks send = some tally') :
    ((0, .ofNat tally'.successful, tally'.totalBytesSent) : UInt64 × UInt64 × UInt64) =
      (0, .ofNat tally.successful, tally.totalBytesSent) + broadcastLedger.sendDue send := by
  unfold BroadcastTally.collect at h
  split at h
  · rename_i latencyMs bytesSent hstage
    simp only [Option.bind_eq_bind, Option.bind_eq_some_iff, Option.some.injEq] at h
    obtain ⟨totalLatency, _, totalBytesSent, hbytes, rfl⟩ := h
    obtain rfl := OverflowChecks.add_eq_some hbytes
    rw [Ledger.sendDue, hstage]
    exact Prod.ext (zero_add 0).symm (Prod.ext (UInt64.ofNat_add _ _) rfl)
  · rename_i hfailed
    obtain rfl := Option.some.inj h
    have hdue : broadcastLedger.sendDue send = 0 := by
      obtain ⟨address, stage⟩ := send
      cases stage with
      | none => rfl
      | some stage =>
          cases stage with
          | counting => cases hended
          | sending phase =>
              cases phase with
              | finished result =>
                  cases result with
                  | ok figures => exact absurd rfl (hfailed figures.1 figures.2)
                  | error e => rfl
              | attempt | connecting | writing => rfl
    rw [hdue, add_zero]

/-- What the sends of a broadcast come to when it collects them. -/
theorem collect_weights {sends : List (SendTask Address)} {tally tally' : BroadcastTally}
    (hended : sends.all SendTask.ended = true)
    (h : sends.foldlM (BroadcastTally.collect checks) tally = some tally') :
    ((0, .ofNat tally'.successful, tally'.totalBytesSent) : UInt64 × UInt64 × UInt64) =
      (0, .ofNat tally.successful, tally.totalBytesSent) +
        (sends.map broadcastLedger.sendDue).sum := by
  induction sends generalizing tally with
  | nil =>
      obtain rfl := Option.some.inj h
      exact (add_zero _).symm
  | cons send sends ih =>
      obtain ⟨hsend, hsends⟩ := Bool.and_eq_true_iff.mp hended
      obtain ⟨next, hcollect, hrest⟩ := Option.bind_eq_some_iff.mp h
      rw [ih hsends hrest, collect_weight hsend hcollect, List.map_cons, List.sum_cons, add_assoc]

theorem balanced_broadcastLedger : (broadcastLedger : Ledger Address _).Balanced checks where
  silent address phase hother := by
    cases phase with
    | finished result =>
        cases result with
        | ok sent => exact absurd rfl (hother sent)
        | error e => rfl
    | attempt | connecting | writing => rfl
  recordSent _ _ _ := zero_add _
  countSent _ length _ := by
    refine Prod.ext ?_ (Prod.ext ?_ ?_)
    · exact add_comm 1 0
    · rfl
    · rfl
  recordReceived _ _ := zero_add _
  countReceived _ _ := (add_zero _).symm
  conclude sends tally durationMs hended hfold := by
    have hweights := collect_weights hended hfold
    rw [show ((0, .ofNat BroadcastTally.zero.successful, BroadcastTally.zero.totalBytesSent) :
      UInt64 × UInt64 × UInt64) = 0 from rfl] at hweights
    exact hweights

/-! ## Every run -/

theorem sum_broadcast_paid (entries : List (Booking Address)) :
    (entries.map broadcastLedger.paid).sum =
      (.ofNat ((entries.filterMap Booking.counted?).filterMap Transfer.sentBytes).length,
        .ofNat ((entries.filterMap Booking.result?).map (·.successful)).sum,
        ((entries.filterMap Booking.result?).map (·.totalBytesSent)).sum) := by
  induction entries with
  | nil => rfl
  | cons entry entries ih =>
      rw [List.map_cons, List.sum_cons, ih]
      cases entry with
      | recorded transfer => simp [broadcastLedger, List.filterMap_cons]
      | counted transfer =>
          cases transfer <;>
            simp [broadcastLedger, List.filterMap_cons, UInt64.ofNat_add, UInt64.add_comm]
      | concluded result => simp [broadcastLedger, List.filterMap_cons, UInt64.ofNat_add]

theorem sum_broadcast_owed (entries : List (Booking Address)) :
    (entries.map broadcastLedger.owed).sum =
      (.ofNat ((entries.filterMap Booking.recorded?).filterMap Transfer.sentBytes).length,
        .ofNat ((entries.filterMap Booking.recorded?).filterMap Transfer.sentBytes).length,
        .ofNat ((entries.filterMap Booking.recorded?).filterMap Transfer.sentBytes).sum) := by
  induction entries with
  | nil => rfl
  | cons entry entries ih =>
      rw [List.map_cons, List.sum_cons, ih]
      cases entry with
      | recorded transfer =>
          cases transfer <;>
            simp [broadcastLedger, List.filterMap_cons, UInt64.ofNat_add, UInt64.add_comm]
      | counted | concluded => simp [broadcastLedger, List.filterMap_cons]

variable [DecidableEq Address] {validatorId : Bytes} {maxRetries : ℕ} {TaskId : Type}
  [DecidableEq TaskId] {x : NetworkPool Address TaskId}
  {calls : List (NetworkCall Address TaskId)}

/-- Where no broadcast is under way, the broadcasts have counted each frame that has been sent, and
so have the sends. -/
theorem broadcast_accounts
    (hrun : ((networkTasks checks texts validatorId maxRetries).machine TaskId).Run
      (.idle ⟨∅, .zero⟩) calls x)
    (hcalm : ∀ c ∈ calls, CallUntroubled c)
    (hroom : ∀ c ∈ calls, c.pre.shared.peers.len < UInt64.size)
    (hended : ∀ id message sends, x.tasks id ≠ some (.broadcasting message sends)) :
    x.shared.stats.successfulBroadcasts = x.shared.stats.totalMessagesSent ∧
      x.shared.stats.totalMessagesSent =
        .ofNat ((recorded texts calls).filterMap Transfer.sentBytes).length ∧
      x.shared.stats.totalBytesSent =
        .ofNat ((recorded texts calls).filterMap Transfer.sentBytes).sum := by
  have htotals := (run_booked hrun hcalm hroom).totals
  have hdone : ∀ id, TaskSystem.dueOf broadcastLedger.due (x.tasks id) = 0 := by
    intro id
    cases htask : x.tasks id with
    | none => rfl
    | some task =>
        cases task with
        | broadcasting message sends => exact absurd htask (hended id message sends)
        | begun | connecting | reconnecting | listening | counting => rfl
  have hledger := balanced_broadcastLedger.run hrun hcalm ∅ fun id _ => hdone id
  rw [Finset.sum_empty, add_zero, sum_broadcast_paid, sum_broadcast_owed] at hledger
  obtain ⟨hcounted, hboth⟩ := Prod.mk.inj hledger
  obtain ⟨hsuccessful, hbytes⟩ := Prod.mk.inj hboth
  have hsent : x.shared.stats.totalMessagesSent =
      .ofNat ((recorded texts calls).filterMap Transfer.sentBytes).length :=
    (congrArg Totals.totalMessagesSent htotals).trans hcounted
  refine ⟨?_, hsent, ?_⟩
  · exact (congrArg Totals.successfulBroadcasts htotals).trans (hsuccessful.trans hsent.symm)
  · exact (congrArg Totals.totalBytesSent htotals).trans hbytes

/-- A broadcast of a ping to a single peer, which has just been concluded. -/
theorem broadcast_accounts_ping :
    ∃ (calls : List (NetworkCall ℕ Unit)) (x : NetworkPool ℕ Unit),
      ((networkTasks .on .plain [] 1).machine Unit).Run (.idle ⟨∅, .zero⟩) calls x ∧
      (recorded .plain calls).filterMap Transfer.sentBytes = [24] ∧
      x.shared.stats.successfulBroadcasts = x.shared.stats.totalMessagesSent ∧
      x.shared.stats.totalMessagesSent =
        .ofNat ((recorded .plain calls).filterMap Transfer.sentBytes).length ∧
      x.shared.stats.totalBytesSent =
        .ofNat ((recorded .plain calls).filterMap Transfer.sentBytes).sum := by
  have hconnected := Machine.Run.start.of_step (M := (networkTasks .on .plain [] 1).machine Unit)
    (s := .idle ⟨∅, .zero⟩) (e := .start () (.addPeer 7) (.locked (.at 0))) rfl
    |>.of_step (e := .start () (.connectPeer 7) (.locked (.at 0))) rfl
    |>.of_step (e := .resume () (.connect (.connected .ok))) rfl
    |>.of_step (e := .resume () (.connect (.wrote (.ok ())))) rfl
    |>.of_step (e := .resume () (.connect (.answered (.data handshakeFrame)))) rfl
  have hsent := hconnected.of_step (e := .start () (.broadcastMessage (.ping 1 2)) (.locked (.at 0)))
      rfl |>.of_step (e := .resume () (.send 0 .resumed)) rfl
    |>.of_step (e := .resume () (.send 0 (.connected .ok))) rfl
    |>.of_step (e := .resume () (.send 0 (.wrote .ok 3 5))) rfl
    |>.of_step (e := .resume () (.send 0 .resumed)) rfl
  have hrun := hsent.of_step (e := .resume () (.locked (.at 0))) rfl
  refine ⟨_, _, hrun, rfl, broadcast_accounts hrun ?_ ?_ ?_⟩
  · intro c hc
    simp only [List.nil_append, List.cons_append, List.mem_cons, List.not_mem_nil, or_false] at hc
    rcases hc with rfl | rfl | rfl | rfl | rfl | rfl | rfl | rfl | rfl | rfl | rfl
    all_goals
      refine ⟨nofun, ?_⟩
      intro id message sends hbusy
      cases hbusy
    all_goals decide
  · intro c hc
    simp only [List.nil_append, List.cons_append, List.mem_cons, List.not_mem_nil, or_false] at hc
    rcases hc with rfl | rfl | rfl | rfl | rfl | rfl | rfl | rfl | rfl | rfl | rfl
    all_goals decide
  · intro id message sends hbusy
    cases hbusy

end ValidatorSync

end SilverNetwork
