import SilverNetwork.Verification.ErrorRecovery.History

/-! The decisions about a peer follow its own history: its error count is a tally of the
disconnections since its last reset, and its backoff one of the lost connections. -/

namespace SilverNetwork

namespace ErrorRecovery

variable {m m' : ErrorRecoveryManager} {e : RecoveryEvent} {r : RecoveryResult} {peer : String}
  {calls : List RecoveryCall} {maxErrors : UInt32}

/-- The number of disconnections since the last reset, as far as it can be counted. -/
def errorCount (peer : String) (calls : List RecoveryCall) : ℕ :=
  min (2 ^ 32 - 1) (tally NetworkError.isPeerDisconnected peer calls)

/-- What the manager says of each peer, and has answered about it, is read off the calls made
for that peer since its last reset. -/
structure FollowsHistory (maxErrors : UInt32) (calls : List RecoveryCall)
    (m : ErrorRecoveryManager) : Prop where
  counts : ∀ peer, (m.getErrorCount peer).toNat = errorCount peer calls
  bans : ∀ before c after peer, calls = before ++ c :: after →
    c.event.reports NetworkError.isPeerDisconnected peer →
    c.result = .answer (.ok
      (if maxErrors.toNat < errorCount peer (before ++ [c]) then .ban else .reconnect))
  agrees : ∀ before c after peer, calls = before ++ c :: after →
    c.event.reports NetworkError.isPeerDisconnected peer →
    (∀ c' ∈ after, ¬ c'.event.resets peer ∧
      ¬ c'.event.reports NetworkError.isPeerDisconnected peer) →
    (m.shouldBanPeer peer ↔ c.result = .answer (.ok .ban))
  spares : ∀ peer, tally NetworkError.isPeerDisconnected peer calls = 0 → ¬ m.shouldBanPeer peer
  delays : ∀ before c after peer error clocks, calls = before ++ c :: after →
    c.event = .handleError peer error clocks → error.isConnectionLost →
    ∃ delay, ExponentialBackoff.jitteredDelay (UInt64.ofNat
        (min 300000 (1000 * 2 ^ tally NetworkError.isConnectionLost peer before))) clocks.wall =
          some delay ∧
      c.result = .answer (.ok (.scheduleReconnect (delay.toNat * millisecond)))
  others : ∀ c ∈ calls, ∀ peer, c.event.peer ≠ peer →
    c.post.getErrorCount peer = c.pre.getErrorCount peer ∧
      c.post.shouldBanPeer peer = c.pre.shouldBanPeer peer ∧
      c.post.backoffStates.lookup peer = c.pre.backoffStates.lookup peer

theorem Remembers.shouldBanPeer_iff (h : Remembers maxErrors calls m) (peer : String) :
    m.shouldBanPeer peer ↔ maxErrors.toNat < errorCount peer calls := by
  simp only [ErrorRecoveryManager.shouldBanPeer, h.limit, decide_eq_true_eq,
    UInt32.lt_iff_toNat_lt, h.counts peer, errorCount]

/-- A disconnection is answered by the count that it leaves. -/
theorem RecoveryRule.of_disconnect (h : RecoveryRule m e r m')
    (hreport : e.reports NetworkError.isPeerDisconnected peer) :
    r = .answer (.ok
      (if m.maxErrorsBeforeBan < m'.getErrorCount peer then .ban else .reconnect)) := by
  cases h with
  | disconnect peer' error _ count strategy counted =>
      simp only [RecoveryEvent.reports, Bool.and_eq_true, decide_eq_true_eq] at hreport
      obtain ⟨rfl, _⟩ := hreport
      simp [ErrorRecoveryManager.getErrorCount]
  | backoff _ _ _ _ strategy | throttle _ _ _ strategy =>
      simp [RecoveryEvent.reports, NetworkError.isPeerDisconnected_iff, strategy] at hreport
  | standing _ error _ _ strategy =>
      simp only [RecoveryEvent.reports, Bool.and_eq_true,
        NetworkError.isPeerDisconnected_iff] at hreport
      simp [hreport.2, standingAction] at strategy
  | reset => simp [RecoveryEvent.reports] at hreport

/-- A lost connection is answered by the next delay of the backoff. -/
theorem RecoveryRule.of_connectionLost {error : NetworkError} {clocks : Clocks}
    (h : RecoveryRule m (.handleError peer error clocks) r m') (hlost : error.isConnectionLost) :
    ∃ delay, ExponentialBackoff.jitteredDelay (m.backoff peer).delayMs clocks.wall =
        some delay ∧
      r = .answer (.ok (.scheduleReconnect (delay.toNat * millisecond))) := by
  have hstrategy := NetworkError.isConnectionLost_iff.mp hlost
  cases h with
  | backoff _ _ _ delay _ jittered => exact ⟨delay, jittered, rfl⟩
  | throttle _ _ _ strategy | disconnect _ _ _ _ strategy => simp [hstrategy] at strategy
  | standing _ _ _ _ strategy => simp [hstrategy, standingAction] at strategy

/-- A call for another peer changes nothing for this one. -/
theorem RecoveryRule.frame (h : RecoveryRule m e r m') (hpeer : e.peer ≠ peer) :
    m'.getErrorCount peer = m.getErrorCount peer ∧
      m'.shouldBanPeer peer = m.shouldBanPeer peer ∧
      m'.backoffStates.lookup peer = m.backoffStates.lookup peer := by
  have hcount : m'.getErrorCount peer = m.getErrorCount peer := by
    rw [getErrorCount_step h]
    cases e <;> simp_all [RecoveryEvent.peer, RecoveryEvent.resets, RecoveryEvent.reports]
  refine ⟨hcount, ?_, ?_⟩
  · simp only [ErrorRecoveryManager.shouldBanPeer, hcount, maxErrorsBeforeBan_step h]
  · cases h with
    | backoff => exact AList.lookup_insert_ne (Ne.symm hpeer)
    | throttle | disconnect | standing => rfl
    | reset peer' =>
        simp only [ErrorRecoveryManager.resetErrorCount]
        split
        · rfl
        · exact AList.lookup_insert_ne (Ne.symm hpeer)

theorem run_bans {before after : List RecoveryCall} {c : RecoveryCall}
    (h : recoveryMachine.Run (.new maxErrors) calls m) (hcalls : calls = before ++ c :: after)
    (hreport : c.event.reports NetworkError.isPeerDisconnected peer) :
    c.result = .answer (.ok
      (if maxErrors.toNat < errorCount peer (before ++ [c]) then .ban else .reconnect)) := by
  obtain ⟨hbefore, hmakes⟩ := h.split hcalls
  have hrule := recoveryStep_rule hmakes
  have hpre := run_remembers hbefore
  have hban : c.pre.maxErrorsBeforeBan < c.post.getErrorCount peer ↔
      maxErrors.toNat < errorCount peer (before ++ [c]) := by
    rw [hpre.limit, UInt32.lt_iff_toNat_lt, (hpre.step hrule).counts peer, errorCount]
  rw [hrule.of_disconnect hreport, if_congr hban rfl rfl]

/-- In every run the decisions about each peer follow its own history, and the manager answers
whatever call comes next. -/
theorem decisions_follow_history (h : recoveryMachine.Run (.new maxErrors) calls m) :
    FollowsHistory maxErrors calls m ∧ ∀ e, ∃ r m', recoveryMachine.step m e = some (r, m') := by
  have hremembers := run_remembers h
  refine ⟨?_, hremembers.completes⟩
  constructor
  case counts => exact hremembers.counts
  case bans =>
    intro before c after peer hcalls hreport
    exact run_bans h hcalls hreport
  case agrees =>
    intro before c after peer hcalls hreport hafter
    have hlast : errorCount peer calls = errorCount peer (before ++ [c]) := by
      rw [hcalls, List.append_cons, errorCount, tally_append hafter, errorCount]
    rw [hremembers.shouldBanPeer_iff, run_bans h hcalls hreport, hlast]
    by_cases hban : maxErrors.toNat < errorCount peer (before ++ [c])
    · simp [hban]
    · simp [hban]
  case spares =>
    intro peer hnone
    rw [hremembers.shouldBanPeer_iff, errorCount, hnone]
    exact Nat.not_lt_zero _
  case delays =>
    intro before c after peer error clocks hcalls he hlost
    obtain ⟨hbefore, hmakes⟩ := h.split hcalls
    have hrule := recoveryStep_rule hmakes
    rw [he] at hrule
    have hnominal := ((run_remembers hbefore).backoffs peer).toNat_delayMs
    have hdelay := hrule.of_connectionLost hlost
    rwa [← UInt64.ofNat_toNat (x := (c.pre.backoff peer).delayMs), hnominal] at hdelay
  case others =>
    intro c hc peer hpeer
    exact (recoveryStep_rule (h.makes hc)).frame hpeer

/-- The second disconnection of a peer that may be lost once is answered by a ban, and its first
timeout by a delay of about a second. -/
theorem decisions_follow_history_plain :
    ∃ calls m, recoveryMachine.Run (.new 1) calls m ∧
      calls.map Call.result =
        [.answer (.ok .reconnect), .answer (.ok .ban),
          .answer (.ok (.scheduleReconnect 957_000_000))] ∧
      FollowsHistory 1 calls m := by
  have hrun := (((Machine.Run.start (M := recoveryMachine) (s := .new 1)).of_step
    (e := .handleError "a" (.peerDisconnected "") ⟨7, 0⟩) rfl).of_step
      (e := .handleError "a" (.peerDisconnected "") ⟨7, 1⟩) rfl).of_step
        (e := .handleError "a" (.connectionTimeout "") ⟨7, 2⟩) rfl
  exact ⟨_, _, hrun, rfl, (decisions_follow_history hrun).1⟩

end ErrorRecovery

end SilverNetwork
