import SilverNetwork.Model.ValidatorSync

/-! The steps of a send and of a listener, each with its guard and with what it makes of the shared
state. The rules are all that the two do, so that facts about them follow case by case. -/

namespace SilverNetwork

namespace ValidatorSync

variable {Address : Type} [DecidableEq Address] {checks : OverflowChecks} {texts : Texts Address}
  {address : Address} {message : NetworkMessage} {maxRetries : ℕ} {s s' : NetworkState Address}

/-! ## Sending -/

/-- The kinds of steps. A failed attempt is counted, and leaves the peers alone. -/
inductive AttemptRule (checks : OverflowChecks) (texts : Texts Address) (address : Address)
    (message : NetworkMessage) (maxRetries : ℕ) (s : NetworkState Address) :
    SendPhase → SendIo → SendPhase → NetworkState Address → Prop where
  | start (number : ℕ) (lastError : Option CoreError) (frame : Bytes)
      (remains : number < maxRetries) (encodes : message.toBytes texts = .ok frame)
      (fits : frame.length ≤ maxMessageSize) :
      AttemptRule checks texts address message maxRetries s (.attempt number lastError) .resumed
        (.connecting number frame) s
  | refuse (number : ℕ) (lastError : Option CoreError) (error : CoreError) (retries : UInt64)
      (remains : number < maxRetries)
      (unsendable : ∀ frame, message.toBytes texts = .ok frame → maxMessageSize < frame.length)
      (counts : checks.add s.stats.messageRetries 1 = some retries) :
      AttemptRule checks texts address message maxRetries s (.attempt number lastError) .resumed
        (.attempt (number + 1) (some error))
        { s with stats := { s.stats with messageRetries := retries } }
  | giveUp (number : ℕ) (lastError : Option CoreError) (s' : NetworkState Address)
      (ended : maxRetries ≤ number)
      (records : s.withPeer address (PeerInfo.recordFailure checks
        ((lastError.map texts.coreError).getD "Unknown error")) = some s') :
      AttemptRule checks texts address message maxRetries s (.attempt number lastError) .resumed
        (.finished (.error (lastError.getD (.invalidData "Unknown send error")))) s'
  | connect (number : ℕ) (frame : Bytes) :
      AttemptRule checks texts address message maxRetries s (.connecting number frame)
        (.connected .ok) (.writing number frame) s
  | unconnected (number : ℕ) (frame : Bytes) (outcome : Outcome) (error : CoreError)
      (retries : UInt64) (failed : outcome ≠ .ok)
      (counts : checks.add s.stats.messageRetries 1 = some retries) :
      AttemptRule checks texts address message maxRetries s (.connecting number frame)
        (.connected outcome) (.attempt (number + 1) (some error))
        { s with stats := { s.stats with messageRetries := retries } }
  | succeed (number : ℕ) (frame : Bytes) (latencyMs : UInt64) (now : Instant)
      (s' : NetworkState Address)
      (records : recordSuccess checks address (.ofNat frame.length) latencyMs now s =
        some (.finished (.ok (latencyMs, .ofNat frame.length)), s')) :
      AttemptRule checks texts address message maxRetries s (.writing number frame)
        (.wrote .ok latencyMs now) (.finished (.ok (latencyMs, .ofNat frame.length))) s'
  | unwritten (number : ℕ) (frame : Bytes) (outcome : Outcome) (latencyMs : UInt64)
      (now : Instant) (error : CoreError) (retries : UInt64) (failed : outcome ≠ .ok)
      (counts : checks.add s.stats.messageRetries 1 = some retries) :
      AttemptRule checks texts address message maxRetries s (.writing number frame)
        (.wrote outcome latencyMs now) (.attempt (number + 1) (some error))
        { s with stats := { s.stats with messageRetries := retries } }

omit [DecidableEq Address] in
theorem failAttempt_eq_some {number : ℕ} {error : CoreError} {phase : SendPhase}
    (h : failAttempt checks number error s = some (phase, s')) :
    ∃ retries, checks.add s.stats.messageRetries 1 = some retries ∧
      phase = .attempt (number + 1) (some error) ∧
      s' = { s with stats := { s.stats with messageRetries := retries } } := by
  simp only [failAttempt, Option.bind_eq_bind, Option.bind_eq_some_iff, Option.some.injEq,
    Prod.mk.injEq] at h
  obtain ⟨retries, hcounts, rfl, rfl⟩ := h
  exact ⟨retries, hcounts, rfl, rfl⟩

theorem attemptRule_of_startAttempt {number : ℕ} {lastError : Option CoreError} {phase : SendPhase}
    (h : startAttempt checks texts address message maxRetries number lastError s =
      some (phase, s')) :
    AttemptRule checks texts address message maxRetries s (.attempt number lastError) .resumed
      phase s' := by
  unfold startAttempt at h
  split at h
  · rename_i hremains
    split at h
    · rename_i e hencode
      obtain ⟨retries, hcounts, rfl, rfl⟩ := failAttempt_eq_some h
      exact .refuse number lastError _ retries hremains (by simp [hencode]) hcounts
    · rename_i frame hencode
      split at h
      · rename_i hlimit
        obtain ⟨retries, hcounts, rfl, rfl⟩ := failAttempt_eq_some h
        exact .refuse number lastError _ retries hremains (by simpa [hencode] using hlimit) hcounts
      · rename_i hlimit
        obtain ⟨rfl, rfl⟩ := Prod.mk.inj (Option.some.inj h)
        exact .start number lastError frame hremains hencode (Nat.le_of_not_lt hlimit)
  · rename_i hended
    simp only [Option.bind_eq_bind, Option.bind_eq_some_iff, Option.some.injEq,
      Prod.mk.injEq] at h
    obtain ⟨s₁, hrecords, rfl, rfl⟩ := h
    exact .giveUp number lastError s₁ (Nat.le_of_not_lt hended) hrecords

theorem attemptRule_of_send {phase phase' : SendPhase} {io : SendIo}
    (h : send checks texts address message maxRetries phase io s = some (phase', s')) :
    AttemptRule checks texts address message maxRetries s phase io phase' s' := by
  cases phase with
  | attempt number lastError =>
      cases io with
      | resumed => exact attemptRule_of_startAttempt h
      | connected | wrote => cases h
  | connecting number frame =>
      cases io with
      | connected outcome =>
          cases outcome with
          | ok =>
              obtain ⟨rfl, rfl⟩ := Prod.mk.inj (Option.some.inj h)
              exact .connect number frame
          | error text | timeout =>
              obtain ⟨retries, hcounts, rfl, rfl⟩ := failAttempt_eq_some h
              exact .unconnected number frame _ _ retries (by simp) hcounts
      | resumed | wrote => cases h
  | writing number frame =>
      cases io with
      | wrote outcome latencyMs now =>
          cases outcome with
          | ok =>
              obtain ⟨s₁, hpeer, hrest⟩ := Option.bind_eq_some_iff.mp h
              obtain ⟨total, hcounts, heq⟩ := Option.bind_eq_some_iff.mp hrest
              obtain ⟨rfl, rfl⟩ := Prod.mk.inj (Option.some.inj heq)
              exact .succeed number frame latencyMs now _ h
          | error text | timeout =>
              obtain ⟨retries, hcounts, rfl, rfl⟩ := failAttempt_eq_some h
              exact .unwritten number frame _ latencyMs now _ retries (by simp) hcounts
      | resumed | connected => cases h
  | finished result => cases h

/-! ## Listening -/

/-- The kinds of steps. One that fails before the message loop leaves everything as it is. -/
inductive HearRule (checks : OverflowChecks) (texts : Texts Address) (address : Address)
    (s : NetworkState Address) : ConnectionPhase → ListenIo → ConnectionPhase →
      Option NetworkMessage → NetworkState Address → Prop where
  | greet : HearRule checks texts address s .greeting (.wrote (.ok ())) .greeted none s
  | fail (phase : ConnectionPhase) (io : ListenIo) (error : CoreError) :
      HearRule checks texts address s phase io (.finished (.error error)) none s
  | accept (bytes : Bytes) (now : Instant) (message : NetworkMessage) (s' : NetworkState Address)
      (reads : NetworkMessage.fromBytes texts bytes = .ok message)
      (accepts : acceptHandshake address message s = some s') :
      HearRule checks texts address s .greeted (.read (.data bytes) now) .receiving none s'
  | receive (bytes : Bytes) (now : Instant) (found : Option NetworkMessage)
      (s' : NetworkState Address) (nonempty : bytes ≠ [])
      (receives : receive checks texts address bytes now s = some (found, s')) :
      HearRule checks texts address s .receiving (.read (.data bytes) now) .receiving found s'
  | hangUp (outcome : ReadOutcome) (now : Instant) (s' : NetworkState Address)
      (hangs : hangUp address s = some s') :
      HearRule checks texts address s .receiving (.read outcome now) (.finished (.ok ())) none s'

theorem hearRule_of_listen {phase phase' : ConnectionPhase} {io : ListenIo}
    {found : Option NetworkMessage}
    (h : listen checks texts address phase io s = some (phase', found, s')) :
    HearRule checks texts address s phase io phase' found s' := by
  unfold listen at h
  split at h
  case h_1 =>
      simp only [Option.some.injEq, Prod.mk.injEq] at h
      obtain ⟨rfl, rfl, rfl⟩ := h
      exact .greet
  case h_2 | h_3 | h_4 | h_5 =>
      simp only [Option.some.injEq, Prod.mk.injEq] at h
      obtain ⟨rfl, rfl, rfl⟩ := h
      exact .fail _ _ _
  case h_6 =>
      split at h
      · simp only [Option.some.injEq, Prod.mk.injEq] at h
        obtain ⟨rfl, rfl, rfl⟩ := h
        exact .fail _ _ _
      · rename_i message hread
        simp only [Option.map_eq_some_iff, Prod.mk.injEq] at h
        obtain ⟨s₁, haccept, rfl, rfl, rfl⟩ := h
        exact .accept _ _ message s₁ hread haccept
  case h_7 =>
      simp only [Option.map_eq_some_iff, Prod.exists, Prod.mk.injEq] at h
      obtain ⟨message, s₁, hreceive, rfl, rfl, rfl⟩ := h
      exact .receive _ _ message s₁ (List.cons_ne_nil _ _) hreceive
  case h_8 =>
      simp only [Option.map_eq_some_iff, Prod.mk.injEq] at h
      obtain ⟨s₁, hhangUp, rfl, rfl, rfl⟩ := h
      exact .hangUp _ _ s₁ hhangUp
  case h_9 => cases h

end ValidatorSync

end SilverNetwork
