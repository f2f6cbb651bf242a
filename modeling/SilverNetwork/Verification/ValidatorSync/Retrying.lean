import SilverNetwork.Model.ValidatorEnvelope
import SilverNetwork.Model.ValidatorTasks
import SilverNetwork.Verification.ValidatorSync.Steps

/-! What one send with retries does in all, whatever becomes of its attempts. Each failed attempt is
counted as a retry, the last one as well, which is not followed by another. -/

namespace SilverNetwork

namespace ValidatorSync

variable {Address : Type} {checks : OverflowChecks} {texts : Texts Address} {address : Address}
  {message : NetworkMessage} {maxRetries : ℕ} {s t : NetworkState Address}

abbrev SendCall (Address : Type) := Call (SendPhase × NetworkState Address) SendIo Unit

variable {calls : List (SendCall Address)} {c : SendCall Address}

/-! ## The attempts -/

namespace SendCall

/-- A task that is resumed makes an attempt, unless it gives up. -/
def attempts (c : SendCall Address) : Bool :=
  match c.pre.1, c.post.1 with
  | .attempt _ _, .finished _ => false
  | .attempt _ _, _ => true
  | _, _ => false

/-- The attempt ends with the message written. -/
def succeeds (c : SendCall Address) : Bool :=
  match c.event with
  | .wrote .ok _ _ => true
  | _ => false

/-- The error with which the attempt fails. -/
def failure? (c : SendCall Address) : Option CoreError :=
  match c.post.1 with
  | .attempt _ lastError => lastError
  | _ => none

end SendCall

def attemptsMade (calls : List (SendCall Address)) : ℕ := calls.countP SendCall.attempts

def lastFailure (calls : List (SendCall Address)) : Option CoreError :=
  (calls.filterMap SendCall.failure?).getLast?

theorem attemptsMade_concat (calls : List (SendCall Address)) (c : SendCall Address) :
    attemptsMade (calls ++ [c]) = attemptsMade calls + if c.attempts then 1 else 0 := by
  simp [attemptsMade, List.countP_append, List.countP_singleton]

theorem lastFailure_concat (calls : List (SendCall Address)) (c : SendCall Address) :
    lastFailure (calls ++ [c]) = c.failure?.or (lastFailure calls) := by
  cases hfailure : c.failure? with
  | none => simp [lastFailure, hfailure]
  | some error => simp [lastFailure, hfailure]

variable [DecidableEq Address]

/-- The one call of `body` on the peer is all that happens to the peers. -/
def RecordsOnce (address : Address) (body : PeerInfo Address → Option (PeerInfo Address))
    (s t : NetworkState Address) : Prop :=
  (s.withPeer address body).map NetworkState.peers = some t.peers

/-- The state after some failed attempts. -/
def NetworkState.retried (s : NetworkState Address) (failures : ℕ) : NetworkState Address :=
  { s with stats := { s.stats with messageRetries := s.stats.messageRetries + .ofNat failures } }

/-- What has become of the task so far. -/
inductive Stage (checks : OverflowChecks) (texts : Texts Address) (address : Address)
    (maxRetries : ℕ) (s : NetworkState Address) (calls : List (SendCall Address)) :
    SendPhase × NetworkState Address → Prop where
  | waiting (number : ℕ) (within : number ≤ maxRetries) (made : attemptsMade calls = number)
      (unsent : ∀ c ∈ calls, ¬ c.succeeds) (failed : 0 < number → (lastFailure calls).isSome) :
      Stage checks texts address maxRetries s calls
        (.attempt number (lastFailure calls), s.retried number)
  | attempting (phase : SendPhase) (number : ℕ) (frame : Bytes)
      (running : phase = .connecting number frame ∨ phase = .writing number frame)
      (remains : number < maxRetries) (made : attemptsMade calls = number + 1)
      (unsent : ∀ c ∈ calls, ¬ c.succeeds) :
      Stage checks texts address maxRetries s calls (phase, s.retried number)
  | sent (number : ℕ) (latencyMs bytes : UInt64) (now : Instant) (t : NetworkState Address)
      (remains : number < maxRetries) (made : attemptsMade calls = number + 1)
      (stopped : ∃ before c, calls = before ++ [c] ∧ c.succeeds ∧ ∀ c ∈ before, ¬ c.succeeds)
      (records : RecordsOnce address (PeerInfo.recordSent checks bytes latencyMs now) s t)
      (stats : t.stats =
        { s.stats with
          messageRetries := s.stats.messageRetries + .ofNat number
          totalMessagesSent := s.stats.totalMessagesSent + 1 }) :
      Stage checks texts address maxRetries s calls (.finished (.ok (latencyMs, bytes)), t)
  | failed (t : NetworkState Address) (made : attemptsMade calls = maxRetries)
      (unsent : ∀ c ∈ calls, ¬ c.succeeds)
      (failed : 0 < maxRetries → (lastFailure calls).isSome)
      (records : RecordsOnce address (PeerInfo.recordFailure checks
        (((lastFailure calls).map texts.coreError).getD "Unknown error")) s t)
      (stats : t.stats =
        { s.stats with messageRetries := s.stats.messageRetries + .ofNat maxRetries }) :
      Stage checks texts address maxRetries s calls
        (.finished (.error ((lastFailure calls).getD (.invalidData "Unknown send error"))), t)

omit [DecidableEq Address] in
theorem NetworkState.retried_succ (s : NetworkState Address) (failures : ℕ) {retries : UInt64}
    (h : checks.add (s.retried failures).stats.messageRetries 1 = some retries) :
    { s.retried failures with
      stats := { (s.retried failures).stats with messageRetries := retries } } =
        s.retried (failures + 1) := by
  obtain rfl := OverflowChecks.add_eq_some h
  simp only [NetworkState.retried, UInt64.ofNat_add, UInt64.ofNat_one, UInt64.add_assoc]

theorem RecordsOnce.of_retried {body : PeerInfo Address → Option (PeerInfo Address)}
    {failures : ℕ} (h : (s.retried failures).withPeer address body = some t) :
    RecordsOnce address body s t ∧ t.stats = (s.retried failures).stats := by
  have hpeers : (s.retried failures).peers = s.peers := rfl
  unfold NetworkState.withPeer at h
  unfold RecordsOnce NetworkState.withPeer
  rw [hpeers] at h
  cases hlookup : s.peers.lookup address with
  | none =>
      rw [hlookup] at h
      obtain rfl := Option.some.inj h
      exact ⟨rfl, rfl⟩
  | some peer =>
      rw [hlookup] at h
      obtain ⟨peer', hbody, rfl⟩ := Option.map_eq_some_iff.mp h
      simp [hbody]

omit [DecidableEq Address] in
theorem unsent_concat (h : ∀ c ∈ calls, ¬ c.succeeds) (hc : ¬ c.succeeds) :
    ∀ c' ∈ calls ++ [c], ¬ c'.succeeds :=
  List.forall_mem_append.mpr ⟨h, List.forall_mem_singleton.mpr hc⟩

/-- An attempt that fails, at whichever of its steps. -/
theorem Stage.fail {number : ℕ} {error : CoreError} {retries : UInt64}
    (hremains : number < maxRetries) (hmade : attemptsMade (calls ++ [c]) = number + 1)
    (hunsent : ∀ c' ∈ calls ++ [c], ¬ c'.succeeds)
    (hcounts : checks.add (s.retried number).stats.messageRetries 1 = some retries)
    (hpost : c.post = (.attempt (number + 1) (some error),
      { s.retried number with
        stats := { (s.retried number).stats with messageRetries := retries } })) :
    Stage checks texts address maxRetries s (calls ++ [c]) c.post := by
  have hlast : lastFailure (calls ++ [c]) = some error := by
    rw [lastFailure_concat, SendCall.failure?, hpost]
    rfl
  rw [hpost, NetworkState.retried_succ s number hcounts, ← hlast]
  exact .waiting (number + 1) hremains hmade hunsent fun _ => by simp [hlast]

/-- The end of the loop without a success. -/
theorem Stage.giveUp (hmade : attemptsMade (calls ++ [c]) = maxRetries)
    (hunsent : ∀ c' ∈ calls ++ [c], ¬ c'.succeeds)
    (hfailed : 0 < maxRetries → (lastFailure calls).isSome)
    (hrecords : (s.retried maxRetries).withPeer address (PeerInfo.recordFailure checks
      (((lastFailure calls).map texts.coreError).getD "Unknown error")) = some t)
    (hpost : c.post =
      (.finished (.error ((lastFailure calls).getD (.invalidData "Unknown send error"))), t)) :
    Stage checks texts address maxRetries s (calls ++ [c]) c.post := by
  have hlast : lastFailure (calls ++ [c]) = lastFailure calls := by
    rw [lastFailure_concat, SendCall.failure?, hpost]
    rfl
  obtain ⟨honce, hstats⟩ := RecordsOnce.of_retried hrecords
  rw [hpost, ← hlast]
  rw [← hlast] at hfailed honce
  exact .failed t hmade hunsent hfailed honce hstats

theorem Stage.step (h : Stage checks texts address maxRetries s calls c.pre)
    (hrule : AttemptRule checks texts address message maxRetries c.pre.2 c.pre.1 c.event c.post.1
      c.post.2) : Stage checks texts address maxRetries s (calls ++ [c]) c.post := by
  obtain ⟨pre, event, result, ⟨phase', u'⟩⟩ := c
  dsimp only at h hrule ⊢
  cases h with
  | waiting number hwithin hmade hunsent hfailed =>
      cases hrule with
      | start _ _ frame hremains hencodes hfits =>
          refine .attempting _ number frame (.inl rfl) hremains ?_ (unsent_concat hunsent ?_)
          · simp [attemptsMade_concat, hmade, SendCall.attempts]
          · simp [SendCall.succeeds]
      | refuse _ _ error retries hremains hunsendable hcounts =>
          refine .fail hremains ?_ (unsent_concat hunsent ?_) hcounts rfl
          · simp [attemptsMade_concat, hmade, SendCall.attempts]
          · simp [SendCall.succeeds]
      | giveUp _ _ t hended hrecords =>
          obtain rfl := Nat.le_antisymm hwithin hended
          refine .giveUp ?_ (unsent_concat hunsent ?_) hfailed hrecords rfl
          · simp [attemptsMade_concat, hmade, SendCall.attempts]
          · simp [SendCall.succeeds]
  | attempting phase number frame hrunning hremains hmade hunsent =>
      rcases hrunning with rfl | rfl
      · cases hrule with
        | connect =>
            refine .attempting _ number frame (.inr rfl) hremains ?_ (unsent_concat hunsent ?_)
            · simp [attemptsMade_concat, hmade, SendCall.attempts]
            · simp [SendCall.succeeds]
        | unconnected _ _ outcome error retries hfailed hcounts =>
            refine .fail hremains ?_ (unsent_concat hunsent ?_) hcounts rfl
            · simp [attemptsMade_concat, hmade, SendCall.attempts]
            · simp [SendCall.succeeds]
      · cases hrule with
        | succeed _ _ latencyMs now t hrecords =>
            obtain ⟨u, hpeer, hrest⟩ := Option.bind_eq_some_iff.mp hrecords
            obtain ⟨total, hcounts, heq⟩ := Option.bind_eq_some_iff.mp hrest
            obtain ⟨honce, hstats⟩ := RecordsOnce.of_retried hpeer
            obtain ⟨-, rfl⟩ := Prod.mk.inj (Option.some.inj heq)
            obtain rfl := OverflowChecks.add_eq_some hcounts
            refine .sent number latencyMs _ now _ hremains ?_ ⟨calls, _, rfl, rfl, hunsent⟩ honce ?_
            · simp [attemptsMade_concat, hmade, SendCall.attempts]
            · simp only [hstats, NetworkState.retried]
        | unwritten _ _ outcome latencyMs now error retries hfailed hcounts =>
            refine .fail hremains ?_ (unsent_concat hunsent ?_) hcounts rfl
            · simp [attemptsMade_concat, hmade, SendCall.attempts]
            · cases outcome with
              | ok => exact absurd rfl hfailed
              | error | timeout => simp [SendCall.succeeds]
  | sent | failed => cases hrule

/-- One run of the task, from the start of its first attempt. -/
abbrev SendRun (checks : OverflowChecks) (texts : Texts Address) (address : Address)
    (message : NetworkMessage) (maxRetries : ℕ) (s : NetworkState Address)
    (calls : List (SendCall Address)) (phase : SendPhase) (t : NetworkState Address) : Prop :=
  (sendMachine texts checks address message maxRetries).Run (.attempt 0 none, s) calls (phase, t)

theorem attemptRule_of_makes
    (h : (sendMachine texts checks address message maxRetries).Makes c) :
    AttemptRule checks texts address message maxRetries c.pre.2 c.pre.1 c.event c.post.1
      c.post.2 := by
  obtain ⟨x, hsend, hpost⟩ := Option.map_eq_some_iff.mp h
  obtain ⟨-, rfl⟩ := Prod.mk.inj hpost
  exact attemptRule_of_send hsend

theorem run_stage {x : SendPhase × NetworkState Address}
    (h : (sendMachine texts checks address message maxRetries).Run (.attempt 0 none, s) calls x) :
    Stage checks texts address maxRetries s calls x := by
  induction h with
  | start =>
      have hstart : s.retried 0 = s := by simp [NetworkState.retried]
      have hstage : Stage checks texts address maxRetries s [] (.attempt 0 none, s.retried 0) :=
        .waiting 0 (Nat.zero_le _) rfl (by simp) (by simp)
      rwa [hstart] at hstage
  | call c _ hmakes ih => exact ih.step (attemptRule_of_makes hmakes)

/-! ## Progress -/

/-- The number of steps that are left to a task. -/
def SendPhase.rank (maxRetries : ℕ) : SendPhase → ℕ
  | .attempt number _ => 3 * (maxRetries - number) + 1
  | .connecting number _ => 3 * (maxRetries - (number + 1)) + 3
  | .writing number _ => 3 * (maxRetries - (number + 1)) + 2
  | .finished _ => 0

theorem AttemptRule.rank_lt {phase phase' : SendPhase} {io : SendIo}
    (h : AttemptRule checks texts address message maxRetries s phase io phase' t) :
    phase'.rank maxRetries < phase.rank maxRetries := by
  cases h with
  | start | refuse | giveUp | connect | unconnected | succeed | unwritten =>
      simp only [SendPhase.rank]
      omega

/-- A counter that the task may advance is full. -/
def CounterOverflows (checks : OverflowChecks) (address : Address) (s : NetworkState Address) :
    Prop :=
  checks.add s.stats.messageRetries 1 = none ∨ checks.add s.stats.totalMessagesSent 1 = none ∨
    ∃ peer, s.peers.lookup address = some peer ∧
      ((∃ error, peer.recordFailure checks error = none) ∨
        ∃ bytes latencyMs now, peer.recordSent checks bytes latencyMs now = none)

omit [DecidableEq Address] in
theorem failAttempt_returns (number : ℕ) (error : CoreError) :
    (failAttempt checks number error s).isSome ∨ checks.add s.stats.messageRetries 1 = none := by
  cases hcount : checks.add s.stats.messageRetries 1 with
  | none => exact .inr rfl
  | some retries => simp [failAttempt, hcount]

theorem withPeer_returns (address : Address) (s : NetworkState Address)
    (body : PeerInfo Address → Option (PeerInfo Address)) :
    (∃ t, s.withPeer address body = some t ∧ t.stats = s.stats) ∨
      ∃ peer, s.peers.lookup address = some peer ∧ body peer = none := by
  unfold NetworkState.withPeer
  cases hlookup : s.peers.lookup address with
  | none => exact .inl ⟨s, rfl, rfl⟩
  | some peer =>
      cases hbody : body peer with
      | none => exact .inr ⟨peer, rfl, hbody⟩
      | some peer' =>
          refine .inl ⟨{ s with peers := s.peers.insert address peer' }, ?_, rfl⟩
          simp [hbody]

/-- Only an overflow keeps a task from its next step. -/
theorem send_returns {phase : SendPhase} {io : SendIo} (h : phase.awaits io) :
    (send checks texts address message maxRetries phase io s).isSome ∨
      CounterOverflows checks address s := by
  have hfail : ∀ number error, (failAttempt checks number error s).isSome ∨
      CounterOverflows checks address s := fun number error =>
    (failAttempt_returns number error).imp_right .inl
  cases phase with
  | attempt number lastError =>
      cases io with
      | resumed =>
          simp only [send, startAttempt]
          split
          · split
            · exact hfail _ _
            · split
              · exact hfail _ _
              · exact .inl rfl
          · rcases withPeer_returns address s (PeerInfo.recordFailure checks
              ((lastError.map texts.coreError).getD "Unknown error"))
              with ⟨t, hrecords, -⟩ | ⟨peer, hlookup, hnone⟩
            · exact .inl (by simp [hrecords])
            · exact .inr (.inr (.inr ⟨peer, hlookup, .inl ⟨_, hnone⟩⟩))
      | connected | wrote => cases h
  | connecting number frame =>
      cases io with
      | connected outcome =>
          cases outcome with
          | ok => exact .inl rfl
          | error | timeout => exact hfail _ _
      | resumed | wrote => cases h
  | writing number frame =>
      cases io with
      | wrote outcome latencyMs now =>
          cases outcome with
          | ok =>
              rcases withPeer_returns address s (PeerInfo.recordSent checks
                (.ofNat frame.length) latencyMs now)
                with ⟨t, hrecords, hstats⟩ | ⟨peer, hlookup, hnone⟩
              · cases hcount : checks.add s.stats.totalMessagesSent 1 with
                | none => exact .inr (.inr (.inl hcount))
                | some total => exact .inl (by simp [send, recordSuccess, hrecords, hstats, hcount])
              · exact .inr (.inr (.inr ⟨peer, hlookup, .inr ⟨_, _, _, hnone⟩⟩))
          | error | timeout => exact hfail _ _
      | resumed | connected => cases h
  | finished result => cases h

/-! ## The whole send -/

/-- At most as many attempts as allowed, up to the first success; what is recorded of them, and as
many retries as there were attempts after the first. -/
structure RetriesWell (checks : OverflowChecks) (texts : Texts Address) (address : Address)
    (maxRetries : ℕ) (s : NetworkState Address) (calls : List (SendCall Address))
    (result : Except CoreError (UInt64 × UInt64)) (t : NetworkState Address) : Prop where
  attempts_le : attemptsMade calls ≤ maxRetries
  stops : ∀ before c after, calls = before ++ c :: after → c.succeeds → after = []
  success : (∃ c ∈ calls, c.succeeds) → ∃ latencyMs bytes now, result = .ok (latencyMs, bytes) ∧
    RecordsOnce address (PeerInfo.recordSent checks bytes latencyMs now) s t ∧
      t.stats.totalMessagesSent = s.stats.totalMessagesSent + 1
  failure : (∀ c ∈ calls, ¬ c.succeeds) →
    RecordsOnce address (PeerInfo.recordFailure checks
      (((lastFailure calls).map texts.coreError).getD "Unknown error")) s t ∧
    t.stats.totalMessagesSent = s.stats.totalMessagesSent ∧
    result = .error ((lastFailure calls).getD (.invalidData "Unknown send error")) ∧
    (1 ≤ maxRetries → (lastFailure calls).isSome)
  retries : t.stats.messageRetries = s.stats.messageRetries + .ofNat (attemptsMade calls - 1)

theorem RetriesWell.of_sent {number : ℕ} {latencyMs bytes : UInt64} {now : Instant}
    (hremains : number < maxRetries) (hmade : attemptsMade calls = number + 1)
    (hstopped : ∃ before c, calls = before ++ [c] ∧ c.succeeds ∧ ∀ c ∈ before, ¬ c.succeeds)
    (hrecords : RecordsOnce address (PeerInfo.recordSent checks bytes latencyMs now) s t)
    (hstats : t.stats =
      { s.stats with
        messageRetries := s.stats.messageRetries + .ofNat number
        totalMessagesSent := s.stats.totalMessagesSent + 1 }) :
    RetriesWell checks texts address maxRetries s calls (.ok (latencyMs, bytes)) t := by
  obtain ⟨front, last, rfl, hlast, hfront⟩ := hstopped
  constructor
  case attempts_le =>
    rw [hmade]
    exact hremains
  case stops =>
    intro before c after hcalls hc
    rcases List.eq_nil_or_concat after with rfl | ⟨rest, d, rfl⟩
    · rfl
    · rw [List.concat_eq_append, ← List.cons_append, ← List.append_assoc] at hcalls
      obtain ⟨rfl, -⟩ := List.append_inj' hcalls rfl
      exact absurd hc (hfront c (by simp))
  case success =>
    intro _
    exact ⟨latencyMs, bytes, now, rfl, hrecords, by rw [hstats]⟩
  case failure =>
    intro hunsent
    exact absurd hlast (hunsent last (by simp))
  case retries => rw [hstats, hmade, Nat.add_sub_cancel]

theorem retriesWell_iff_of_failed (hmade : attemptsMade calls = maxRetries)
    (hunsent : ∀ c ∈ calls, ¬ c.succeeds)
    (hfailed : 0 < maxRetries → (lastFailure calls).isSome)
    (hrecords : RecordsOnce address (PeerInfo.recordFailure checks
      (((lastFailure calls).map texts.coreError).getD "Unknown error")) s t)
    (hstats : t.stats =
      { s.stats with messageRetries := s.stats.messageRetries + .ofNat maxRetries }) :
    RetriesWell checks texts address maxRetries s calls
      (.error ((lastFailure calls).getD (.invalidData "Unknown send error"))) t ↔
        maxRetries = 0 := by
  constructor
  · intro hwell
    have hretries := hwell.retries
    rw [hstats, hmade] at hretries
    cases maxRetries with
    | zero => rfl
    | succ n => simp [UInt64.ofNat_add] at hretries
  · intro hzero
    constructor
    case attempts_le => exact hmade.le
    case stops =>
      intro before c after hcalls hc
      exact absurd hc (hunsent c (by simp [hcalls]))
    case success =>
      rintro ⟨c, hc, hsucceeds⟩
      exact absurd hsucceeds (hunsent c hc)
    case failure =>
      intro _
      exact ⟨hrecords, by rw [hstats], rfl, hfailed⟩
    case retries => rw [hstats, hmade, hzero]

/-- A send with retries ends, and counts as many retries as it makes exactly where it succeeds or
makes no attempt: otherwise it counts one more. -/
theorem retries_well_iff {phase : SendPhase}
    (h : SendRun checks texts address message maxRetries s calls phase t) :
    calls.length ≤ 3 * maxRetries + 1 ∧
    (∀ io, phase.awaits io → (send checks texts address message maxRetries phase io t).isSome ∨
      CounterOverflows checks address t) ∧
    ∀ result, phase = .finished result →
      (RetriesWell checks texts address maxRetries s calls result t ↔
        maxRetries = 0 ∨ ∃ c ∈ calls, c.succeeds) := by
  have hlength := h.length_add_rank_le (fun x => x.1.rank maxRetries)
    fun c hmakes => (attemptRule_of_makes hmakes).rank_lt
  refine ⟨?_, fun io hio => send_returns hio, ?_⟩
  · simp only [SendPhase.rank] at hlength
    omega
  · rintro result rfl
    cases run_stage h with
    | sent number latencyMs bytes now t hremains hmade hstopped hrecords hstats =>
        obtain ⟨front, last, rfl, hlast, -⟩ := id hstopped
        exact iff_of_true (.of_sent hremains hmade hstopped hrecords hstats)
          (.inr ⟨last, by simp, hlast⟩)
    | failed t hmade hunsent hfailed hrecords hstats =>
        rw [retriesWell_iff_of_failed hmade hunsent hfailed hrecords hstats]
        have hnone : ¬ ∃ c ∈ calls, c.succeeds := by
          rintro ⟨c, hc, hsucceeds⟩
          exact hunsent c hc hsucceeds
        rw [or_iff_left hnone]
    | attempting _ _ _ hrunning => rcases hrunning with h | h <;> cases h

/-- A ping that is written at the second attempt. -/
theorem retries_well_iff_plain :
    ∃ calls result t, SendRun .on .plain 1 (.ping 1 2) 2 ⟨∅, .zero⟩ calls (.finished result) t ∧
      attemptsMade calls = 2 ∧ t.stats.messageRetries = 1 ∧
      RetriesWell .on .plain (1 : ℕ) 2 ⟨∅, .zero⟩ calls result t := by
  have hrun := Machine.Run.start.of_step
    (M := sendMachine .plain .on (1 : ℕ) (.ping 1 2) 2) (s := (.attempt 0 none, ⟨∅, .zero⟩))
    (e := .resumed) rfl |>.of_step (e := .connected .timeout) rfl |>.of_step (e := .resumed) rfl
      |>.of_step (e := .connected .ok) rfl |>.of_step (e := .wrote .ok 3 0) rfl
  exact ⟨_, _, _, hrun, rfl, rfl,
    ((retries_well_iff hrun).2.2 _ rfl).mpr (.inr ⟨_, List.mem_concat_self, rfl⟩)⟩

/-- The only attempt that is allowed, and fails, is counted as a retry. -/
theorem failed_attempt_counted_as_retry :
    ∃ calls result t, SendRun .on .plain 1 (.ping 1 2) 1 ⟨∅, .zero⟩ calls (.finished result) t ∧
      attemptsMade calls = 1 ∧ t.stats.messageRetries = 1 ∧
      ¬ RetriesWell .on .plain (1 : ℕ) 1 ⟨∅, .zero⟩ calls result t := by
  have hrun := Machine.Run.start.of_step
    (M := sendMachine .plain .on (1 : ℕ) (.ping 1 2) 1) (s := (.attempt 0 none, ⟨∅, .zero⟩))
    (e := .resumed) rfl |>.of_step (e := .connected .timeout) rfl |>.of_step (e := .resumed) rfl
  refine ⟨_, _, _, hrun, rfl, rfl, ?_⟩
  intro hwell
  exact absurd hwell.retries (by decide)

end ValidatorSync

end SilverNetwork
