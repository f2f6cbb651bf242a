import SilverNetwork.Verification.ErrorRecovery.Backoff

/-! What a recovery manager remembers of the calls. The rules say what each kind of error does to
it, and its error counts and backoffs are tallies that move with them. -/

namespace SilverNetwork

def NetworkError.isPeerDisconnected : NetworkError → Bool
  | .peerDisconnected _ => true
  | _ => false

def NetworkError.isConnectionLost : NetworkError → Bool
  | .connectionTimeout _ | .connectionReset _ => true
  | _ => false

theorem NetworkError.isPeerDisconnected_iff {error : NetworkError} :
    error.isPeerDisconnected ↔ error.recoveryStrategy = .reconnect := by
  cases error <;> simp [isPeerDisconnected, recoveryStrategy]

theorem NetworkError.isConnectionLost_iff {error : NetworkError} :
    error.isConnectionLost ↔ error.recoveryStrategy = .exponentialBackoff := by
  cases error <;> simp [isConnectionLost, recoveryStrategy]

namespace ErrorRecovery

/-! ## Tallies -/

namespace RecoveryEvent

def peer : RecoveryEvent → String
  | .handleError peer _ _ => peer
  | .resetErrorCount peer => peer

/-- The event is an error of the given kind, handled for the peer. -/
def reports (kind : NetworkError → Bool) (peer : String) : RecoveryEvent → Bool
  | .handleError peer' error _ => peer' = peer && kind error
  | .resetErrorCount _ => false

def resets (peer : String) : RecoveryEvent → Bool
  | .handleError _ _ _ => false
  | .resetErrorCount peer' => peer' = peer

end RecoveryEvent

variable {m m' : ErrorRecoveryManager} {e : RecoveryEvent} {r : RecoveryResult} {peer : String}
  {calls : List RecoveryCall} {k : ℕ}

/-- How many errors of the kind have been handled for the peer since its last reset. -/
def tally (kind : NetworkError → Bool) (peer : String) (calls : List RecoveryCall) : ℕ :=
  (calls.rtakeWhile fun c => !c.event.resets peer).countP fun c => c.event.reports kind peer

@[simp] theorem tally_nil (kind : NetworkError → Bool) (peer : String) :
    tally kind peer [] = 0 := by
  simp [tally]

theorem tally_concat (kind : NetworkError → Bool) (peer : String) (calls : List RecoveryCall)
    (c : RecoveryCall) : tally kind peer (calls ++ [c]) =
      if c.event.resets peer then 0
      else tally kind peer calls + if c.event.reports kind peer then 1 else 0 := by
  unfold tally
  by_cases hreset : c.event.resets peer
  · simp [hreset]
  · simp [hreset, List.countP_append, List.countP_singleton]

/-- Calls that neither reset the peer nor report an error of the kind for it do not count. -/
theorem tally_append {kind : NetworkError → Bool} {after : List RecoveryCall}
    (h : ∀ c ∈ after, ¬ c.event.resets peer ∧ ¬ c.event.reports kind peer) :
    tally kind peer (calls ++ after) = tally kind peer calls := by
  induction after using List.reverseRecOn with
  | nil => rw [List.append_nil]
  | append_singleton after c ih =>
      obtain ⟨hreset, hreport⟩ := h c List.mem_concat_self
      rw [← List.append_assoc, tally_concat, if_neg hreset, if_neg hreport, Nat.add_zero]
      exact ih fun c' hc' => h c' (List.mem_append_left _ hc')

/-! ## The rules -/

def ErrorRecoveryManager.backoff (peer : String) (m : ErrorRecoveryManager) :
    ExponentialBackoff :=
  (m.backoffStates.lookup peer).getD (.new 1000 300000)

def ErrorRecoveryManager.limiter (peer : String) (now : Instant) (m : ErrorRecoveryManager) :
    PeerRateLimiter :=
  (m.rateLimiters.lookup peer).getD (.new 100 (60 * second) now)

def ExponentialBackoff.next (now : Instant) (b : ExponentialBackoff) : ExponentialBackoff :=
  { b with attempt := Saturating.add32 b.attempt 1, lastBackoff := some now }

/-- The action of the strategies that keep no record of the peer. -/
def standingAction : RecoveryStrategy → Option RecoveryAction
  | .retry => some .retry
  | .waitAndRetry => some (.waitAndRetry (5 * second))
  | .alert => some .alert
  | .failStartup => some .failStartup
  | .log => some .log
  | .exponentialBackoff | .throttle | .reconnect => none

inductive RecoveryRule (m : ErrorRecoveryManager) :
    RecoveryEvent → RecoveryResult → ErrorRecoveryManager → Prop where
  | backoff (peer : String) (error : NetworkError) (clocks : Clocks) (delay : UInt64)
      (strategy : error.recoveryStrategy = .exponentialBackoff)
      (jittered : ExponentialBackoff.jitteredDelay (m.backoff peer).delayMs clocks.wall =
        some delay) :
      RecoveryRule m (.handleError peer error clocks)
        (.answer (.ok (.scheduleReconnect (delay.toNat * millisecond))))
        { m with backoffStates :=
            m.backoffStates.insert peer ((m.backoff peer).next clocks.now) }
  | throttle (peer : String) (error : NetworkError) (clocks : Clocks)
      (strategy : error.recoveryStrategy = .throttle) :
      RecoveryRule m (.handleError peer error clocks)
        (.answer (.ok (.throttle (m.limiter peer clocks.now).throttleDuration)))
        { m with rateLimiters := m.rateLimiters.insert peer (m.limiter peer clocks.now) }
  | disconnect (peer : String) (error : NetworkError) (clocks : Clocks) (count : UInt32)
      (strategy : error.recoveryStrategy = .reconnect)
      (counted : count = Saturating.add32 (m.getErrorCount peer) 1) :
      RecoveryRule m (.handleError peer error clocks)
        (.answer (.ok (if m.maxErrorsBeforeBan < count then .ban else .reconnect)))
        { m with errorCounts := m.errorCounts.insert peer count }
  | standing (peer : String) (error : NetworkError) (clocks : Clocks) (action : RecoveryAction)
      (strategy : standingAction error.recoveryStrategy = some action) :
      RecoveryRule m (.handleError peer error clocks) (.answer (.ok action)) m
  | reset (peer : String) :
      RecoveryRule m (.resetErrorCount peer) .done (m.resetErrorCount peer)

theorem recoveryStep_rule (h : recoveryStep m e = some (r, m')) : RecoveryRule m e r m' := by
  cases e with
  | resetErrorCount peer =>
      obtain ⟨rfl, rfl⟩ := Prod.mk.inj (Option.some.inj h)
      exact .reset peer
  | handleError peer error clocks =>
      rw [recoveryStep, ErrorRecoveryManager.handleError] at h
      cases hstrategy : error.recoveryStrategy with
      | exponentialBackoff =>
          simp only [hstrategy, ErrorRecoveryManager.handleExponentialBackoff,
            ExponentialBackoff.nextBackoff, Option.map_map, Option.map_eq_some_iff] at h
          obtain ⟨delay, hdelay, hpair⟩ := h
          obtain ⟨rfl, rfl⟩ := Prod.mk.inj hpair
          exact .backoff peer error clocks delay hstrategy hdelay
      | throttle =>
          rw [hstrategy] at h
          obtain ⟨rfl, rfl⟩ := Prod.mk.inj (Option.some.inj h)
          exact .throttle peer error clocks hstrategy
      | reconnect =>
          rw [hstrategy] at h
          obtain ⟨rfl, rfl⟩ := Prod.mk.inj (Option.some.inj h)
          exact .disconnect peer error clocks _ hstrategy rfl
      | retry | waitAndRetry | alert | failStartup | log =>
          rw [hstrategy] at h
          obtain ⟨rfl, rfl⟩ := Prod.mk.inj (Option.some.inj h)
          exact .standing peer error clocks _ (by rw [hstrategy]; rfl)

/-! ## The delays -/

/-- A backoff from one second to five minutes that has been asked for so many delays. -/
structure ExponentialBackoff.Asked (k : ℕ) (b : ExponentialBackoff) : Prop where
  initial : b.initialDelayMs = 1000
  maximum : b.maxDelayMs = 300000
  attempt : b.attempt.toNat = min (2 ^ 32 - 1) k

theorem ExponentialBackoff.asked_new : (new 1000 300000).Asked 0 := ⟨rfl, rfl, rfl⟩

theorem ExponentialBackoff.Asked.reset {b : ExponentialBackoff} (h : b.Asked k) :
    b.reset.Asked 0 :=
  ⟨h.initial, h.maximum, rfl⟩

theorem ExponentialBackoff.Asked.next {b : ExponentialBackoff} (h : b.Asked k) (now : Instant) :
    (b.next now).Asked (k + 1) := by
  refine ⟨h.initial, h.maximum, ?_⟩
  simp only [ExponentialBackoff.next, Saturating.toNat_add32, h.attempt, UInt32.toNat_one]
  omega

/-- The delay in milliseconds after so many others, before the jitter. -/
def nominalDelay (k : ℕ) : ℕ := min 300000 (1000 * 2 ^ k)

theorem le_nominalDelay (k : ℕ) : 1000 ≤ nominalDelay k := by
  have hpow := Nat.one_le_two_pow (n := k)
  unfold nominalDelay
  omega

theorem ExponentialBackoff.Asked.toNat_delayMs {b : ExponentialBackoff} (h : b.Asked k) :
    b.delayMs.toNat = nominalDelay k :=
  ExponentialBackoff.Follows.toNat_delayMs ⟨h.initial, h.maximum, h.attempt⟩

/-! ## What a manager remembers -/

/-- The part of the manager that the decisions are made from, as the calls so far leave it. -/
structure Remembers (maxErrors : UInt32) (calls : List RecoveryCall)
    (m : ErrorRecoveryManager) : Prop where
  limit : m.maxErrorsBeforeBan = maxErrors
  counts : ∀ peer, (m.getErrorCount peer).toNat =
    min (2 ^ 32 - 1) (tally NetworkError.isPeerDisconnected peer calls)
  backoffs : ∀ peer, (m.backoff peer).Asked (tally NetworkError.isConnectionLost peer calls)

variable {maxErrors : UInt32}

theorem remembers_new (maxErrors : UInt32) : Remembers maxErrors [] (.new maxErrors) where
  limit := rfl
  counts := fun _ => by simp [ErrorRecoveryManager.new, ErrorRecoveryManager.getErrorCount]
  backoffs := fun peer => by
    rw [tally_nil]
    exact ExponentialBackoff.asked_new

/-- A call leaves the count of a peer alone, counts one more for it or forgets it. -/
theorem getErrorCount_step (h : RecoveryRule m e r m') (peer : String) :
    m'.getErrorCount peer =
      if e.resets peer then 0
      else if e.reports NetworkError.isPeerDisconnected peer then
        Saturating.add32 (m.getErrorCount peer) 1
      else m.getErrorCount peer := by
  cases h with
  | backoff peer' error _ _ strategy | throttle peer' error _ strategy =>
      have hkind : ¬ error.isPeerDisconnected := by
        simp [NetworkError.isPeerDisconnected_iff, strategy]
      simp [RecoveryEvent.resets, RecoveryEvent.reports, hkind, ErrorRecoveryManager.getErrorCount]
  | disconnect peer' error _ count strategy counted =>
      have hkind : error.isPeerDisconnected := NetworkError.isPeerDisconnected_iff.mpr strategy
      by_cases hpeer : peer = peer'
      · subst hpeer
        simp [RecoveryEvent.resets, RecoveryEvent.reports, hkind, counted,
          ErrorRecoveryManager.getErrorCount]
      · simp [RecoveryEvent.resets, RecoveryEvent.reports, Ne.symm hpeer,
          ErrorRecoveryManager.getErrorCount, AList.lookup_insert_ne hpeer]
  | standing peer' error _ action strategy =>
      have hkind : ¬ error.isPeerDisconnected := by
        intro hdisconnected
        rw [NetworkError.isPeerDisconnected_iff.mp hdisconnected] at strategy
        simp [standingAction] at strategy
      simp [RecoveryEvent.resets, RecoveryEvent.reports, hkind]
  | reset peer' =>
      simp only [RecoveryEvent.resets, RecoveryEvent.reports, ErrorRecoveryManager.getErrorCount,
        ErrorRecoveryManager.resetErrorCount, HashMap.lookup_erase_eq, decide_eq_true_eq,
        eq_comm (a := peer)]
      split <;> simp_all

theorem backoff_resetErrorCount (m : ErrorRecoveryManager) (peer peer' : String) :
    (m.resetErrorCount peer').backoff peer =
      if peer' = peer then (m.backoff peer).reset else m.backoff peer := by
  unfold ErrorRecoveryManager.backoff ErrorRecoveryManager.resetErrorCount
  cases hlookup : m.backoffStates.lookup peer' with
  | none =>
      by_cases hpeer : peer' = peer
      · subst hpeer
        simp [hlookup, ExponentialBackoff.new, ExponentialBackoff.reset]
      · simp [hpeer]
  | some backoff =>
      by_cases hpeer : peer' = peer
      · subst hpeer
        simp [hlookup]
      · simp [hpeer, AList.lookup_insert_ne (Ne.symm hpeer)]

/-- A call leaves the backoff of a peer alone, asks it for one more delay or starts it anew. -/
theorem backoff_step (h : RecoveryRule m e r m') {peer : String} (hk : (m.backoff peer).Asked k) :
    (m'.backoff peer).Asked (if e.resets peer then 0
      else k + if e.reports NetworkError.isConnectionLost peer then 1 else 0) := by
  cases h with
  | backoff peer' error clocks _ strategy =>
      have hkind : error.isConnectionLost := NetworkError.isConnectionLost_iff.mpr strategy
      by_cases hpeer : peer = peer'
      · subst hpeer
        simpa [RecoveryEvent.resets, RecoveryEvent.reports, hkind, ErrorRecoveryManager.backoff]
          using hk.next clocks.now
      · simpa [RecoveryEvent.resets, RecoveryEvent.reports, Ne.symm hpeer,
          ErrorRecoveryManager.backoff, AList.lookup_insert_ne hpeer] using hk
  | throttle peer' error _ strategy | disconnect peer' error _ _ strategy =>
      have hkind : ¬ error.isConnectionLost := by
        simp [NetworkError.isConnectionLost_iff, strategy]
      simpa [RecoveryEvent.resets, RecoveryEvent.reports, hkind, ErrorRecoveryManager.backoff]
        using hk
  | standing peer' error _ action strategy =>
      have hkind : ¬ error.isConnectionLost := by
        intro hlost
        rw [NetworkError.isConnectionLost_iff.mp hlost] at strategy
        simp [standingAction] at strategy
      simpa [RecoveryEvent.resets, RecoveryEvent.reports, hkind] using hk
  | reset peer' =>
      rw [backoff_resetErrorCount]
      by_cases hpeer : peer' = peer
      · simpa [RecoveryEvent.resets, hpeer] using hk.reset
      · simpa [RecoveryEvent.resets, RecoveryEvent.reports, hpeer] using hk

theorem maxErrorsBeforeBan_step (h : RecoveryRule m e r m') :
    m'.maxErrorsBeforeBan = m.maxErrorsBeforeBan := by
  cases h <;> rfl

theorem Remembers.step {c : RecoveryCall} (h : Remembers maxErrors calls c.pre)
    (hrule : RecoveryRule c.pre c.event c.result c.post) :
    Remembers maxErrors (calls ++ [c]) c.post where
  limit := (maxErrorsBeforeBan_step hrule).trans h.limit
  counts := fun peer => by
    rw [getErrorCount_step hrule peer, tally_concat]
    by_cases hreset : c.event.resets peer
    · simp [hreset]
    · by_cases hreport : c.event.reports NetworkError.isPeerDisconnected peer
      · simp only [hreset, hreport, if_true, if_false, Saturating.toNat_add32, h.counts peer,
          UInt32.toNat_one, Bool.false_eq_true]
        omega
      · simp [hreset, hreport, h.counts peer]
  backoffs := fun peer => by
    rw [tally_concat]
    exact backoff_step hrule (h.backoffs peer)

theorem run_remembers (h : recoveryMachine.Run (.new maxErrors) calls m) :
    Remembers maxErrors calls m := by
  induction h with
  | start => exact remembers_new maxErrors
  | call c _ hmakes ih => exact ih.step (recoveryStep_rule hmakes)

/-- A manager that remembers its calls answers every further one: no jitter is zero. -/
theorem Remembers.completes (h : Remembers maxErrors calls m) (e : RecoveryEvent) :
    ∃ r m', recoveryStep m e = some (r, m') := by
  cases e with
  | resetErrorCount peer => exact ⟨_, _, rfl⟩
  | handleError peer error clocks =>
      rw [recoveryStep, ErrorRecoveryManager.handleError]
      cases hstrategy : error.recoveryStrategy with
      | exponentialBackoff =>
          have hdelay := (h.backoffs peer).toNat_delayMs
          have hlow := le_nominalDelay (tally NetworkError.isConnectionLost peer calls)
          have hsome := (jitteredDelay_isSome_iff (m.backoff peer).delayMs clocks.wall).mpr
            (by omega)
          obtain ⟨delay, hjittered⟩ := Option.isSome_iff_exists.mp hsome
          rw [ErrorRecoveryManager.backoff] at hjittered
          simp only [ErrorRecoveryManager.handleExponentialBackoff,
            ExponentialBackoff.nextBackoff, hjittered]
          exact ⟨_, _, rfl⟩
      | throttle | reconnect | retry | waitAndRetry | alert | failStartup | log =>
          exact ⟨_, _, rfl⟩

end ErrorRecovery

end SilverNetwork
