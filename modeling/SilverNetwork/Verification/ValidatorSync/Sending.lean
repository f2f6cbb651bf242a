import SilverNetwork.Verification.ValidatorSync.Parties

/-! What becomes of a message that is reported as sent. The sender writes one frame to each
connection and drops it, and the listener takes that frame for the handshake it waits for, so
that nothing is left for its message loop. -/

namespace SilverNetwork

namespace ValidatorSync

variable {Address : Type} [DecidableEq Address] {P : Parties Address} {f : Bytes}
  {x x' : Exchange Address} {c : Connection}

/-! ## The exchange -/

/-- The loop of the listener has heard nothing, and never will. -/
structure Deaf (f : Bytes) (stats : BroadcastStats) (x : Exchange Address) : Prop where
  holds : x.sender.Holds f
  unheard : ∀ c ∈ x.connections, c.received = []
  wire : ∀ c ∈ x.connections, Wire f c.phase c.closed c.pending
  opened : ∀ number frame, x.sender = .writing number frame →
    ∃ c others, x.connections = c :: others ∧ c.closed = false
  stats_eq : x.listenerState.stats = stats

omit [DecidableEq Address] in
theorem deaf_start (f : Bytes) (senderState listenerState : NetworkState Address) :
    Deaf f listenerState.stats (.start senderState listenerState) where
  holds := trivial
  unheard := by simp [Exchange.start]
  wire := by simp [Exchange.start]
  opened := fun _ _ h => by cases h
  stats_eq := rfl

theorem senderStep_eq_some {io : SendIo} (hframe : P.message.toBytes P.texts = .ok f)
    (h : senderStep P io x = some x') :
    ∃ sender senderState, SendRule f x.sender io sender ∧
      x' = { x with sender, senderState } := by
  obtain ⟨⟨sender, senderState⟩, hsend, rfl⟩ := Option.map_eq_some_iff.mp h
  exact ⟨sender, senderState, send_rule hframe hsend, rfl⟩

variable {stats : BroadcastStats}

theorem Deaf.listenerStep {index : ℕ} {io : Connection → Option (ListenIo × List Bytes)}
    (hdeaf : Deaf f stats x) (hframe : P.message.toBytes P.texts = .ok f)
    (hsmall : f.length < 2 ^ 32) (hio : ∀ c io' pending, io c = some (io', pending) →
      Offers c io' pending) (h : listenerStep P index io x = some x') : Deaf f stats x' := by
  simp only [ValidatorSync.listenerStep, Option.bind_eq_bind, Option.bind_eq_some_iff,
    Option.some.injEq, Prod.exists] at h
  obtain ⟨c, hc, io', pending, hoffer, phase, found, s, hlisten, rfl⟩ := h
  have hmem := List.mem_of_getElem? hc
  obtain ⟨rfl, hstats, hwire⟩ := (hdeaf.wire c hmem).listen hframe hsmall (hio c io' pending hoffer)
    (listen_rule hlisten)
  constructor
  case holds => exact hdeaf.holds
  case stats_eq => exact hstats.trans hdeaf.stats_eq
  case unheard =>
    intro c' hc'
    rcases List.mem_or_eq_of_mem_set hc' with hold | rfl
    · exact hdeaf.unheard c' hold
    · simp [hdeaf.unheard c hmem]
  case wire =>
    intro c' hc'
    rcases List.mem_or_eq_of_mem_set hc' with hold | rfl
    · exact hdeaf.wire c' hold
    · exact hwire
  case opened =>
    intro number frame hwriting
    obtain ⟨first, others, hconnections, hopen⟩ := hdeaf.opened number frame hwriting
    rw [hconnections] at hc
    simp only [hconnections]
    cases index with
    | zero =>
        obtain rfl : first = c := by simpa using hc
        exact ⟨_, others, rfl, hopen⟩
    | succ index => exact ⟨first, _, rfl, hopen⟩

omit [DecidableEq Address] in
/-- What the sender delivers is the beginning of the frame, or all of it. -/
theorem SendPhase.Holds.delivered {phase : SendPhase} (h : phase.Holds f) (outcome : Outcome)
    (delivered : ℕ) : ∃ k, phase.delivered outcome delivered = f.take k := by
  cases phase with
  | writing number frame =>
      obtain rfl : frame = f := h
      by_cases hok : outcome = .ok
      · exact ⟨frame.length, by simp [SendPhase.delivered, hok]⟩
      · exact ⟨delivered, by simp [SendPhase.delivered, hok]⟩
  | attempt | connecting | finished => exact ⟨0, by simp [SendPhase.delivered]⟩

omit [DecidableEq Address] in
/-- The sender opens a connection. -/
theorem Deaf.opens {sender : SendPhase} {senderState : NetworkState Address} {closed : Bool}
    (hdeaf : Deaf f stats x) (hholds : sender.Holds f)
    (hopen : ∀ number frame, sender = .writing number frame → closed = false) :
    Deaf f stats { x with sender, senderState, connections := .opened P closed :: x.connections }
    where
  holds := hholds
  unheard := List.forall_mem_cons.mpr ⟨rfl, hdeaf.unheard⟩
  wire := List.forall_mem_cons.mpr ⟨wire_opened P closed, hdeaf.wire⟩
  opened := fun number frame h => ⟨_, _, rfl, hopen number frame h⟩
  stats_eq := hdeaf.stats_eq

omit [DecidableEq Address] in
theorem Deaf.moves {sender : SendPhase} {senderState : NetworkState Address}
    (hdeaf : Deaf f stats x) (hholds : sender.Holds f)
    (hidle : ∀ number frame, sender ≠ .writing number frame) :
    Deaf f stats { x with sender, senderState } where
  holds := hholds
  unheard := hdeaf.unheard
  wire := hdeaf.wire
  opened := fun number frame h => absurd h (hidle number frame)
  stats_eq := hdeaf.stats_eq

theorem Deaf.connected {outcome : Outcome} {accepted : Bool} (hdeaf : Deaf f stats x)
    (hframe : P.message.toBytes P.texts = .ok f)
    (h : exchangeStep P x (.connected outcome accepted) = some x') : Deaf f stats x' := by
  obtain ⟨x₁, hsender, rfl⟩ := Option.map_eq_some_iff.mp h
  obtain ⟨sender, senderState, hrule, rfl⟩ := senderStep_eq_some hframe hsender
  have hholds := hrule.holds hdeaf.holds
  by_cases hok : outcome = .ok
  · rw [if_pos hok]
    exact hdeaf.opens hholds fun _ _ _ => rfl
  · have hidle : ∀ number frame, sender ≠ .writing number frame := by
      rintro number frame rfl
      injection hrule.writing with hmade
      exact hok hmade
    rw [if_neg hok]
    split
    · exact hdeaf.opens hholds fun number frame hwriting => absurd hwriting (hidle number frame)
    · exact hdeaf.moves hholds hidle

theorem Deaf.wrote {outcome : Outcome} {delivered : ℕ} {latencyMs : UInt64} {now : Instant}
    (hdeaf : Deaf f stats x) (hframe : P.message.toBytes P.texts = .ok f)
    (h : exchangeStep P x (.wrote outcome delivered latencyMs now) = some x') :
    Deaf f stats x' := by
  simp only [exchangeStep] at h
  split at h
  · cases h
  · rename_i c others hconnections
    obtain ⟨x₁, hsender, rfl⟩ := Option.map_eq_some_iff.mp h
    obtain ⟨sender, senderState, hrule, rfl⟩ := senderStep_eq_some hframe hsender
    obtain ⟨number, frame, hphase⟩ := hrule.wrote
    obtain ⟨c', others', hconnections', hopen⟩ := hdeaf.opened number frame hphase
    obtain ⟨rfl, rfl⟩ := List.cons.inj (hconnections.symm.trans hconnections')
    obtain ⟨k, hk⟩ := hdeaf.holds.delivered outcome delivered
    have hmem : c ∈ x.connections := by simp [hconnections]
    have hwire := hdeaf.wire c hmem
    rw [hopen] at hwire
    have hothers : ∀ c' ∈ others, c' ∈ x.connections := by
      intro c' hc'
      simp [hconnections, hc']
    constructor
    case holds => exact hrule.holds hdeaf.holds
    case stats_eq => exact hdeaf.stats_eq
    case unheard =>
      exact List.forall_mem_cons.mpr
        ⟨hdeaf.unheard c hmem, fun c' hc' => hdeaf.unheard c' (hothers c' hc')⟩
    case wire =>
      rw [hk]
      exact List.forall_mem_cons.mpr
        ⟨hwire.deliver k, fun c' hc' => hdeaf.wire c' (hothers c' hc')⟩
    case opened =>
      rintro number frame rfl
      cases hrule.writing

theorem Deaf.step {e : ExchangeEvent} (hdeaf : Deaf f stats x)
    (hframe : P.message.toBytes P.texts = .ok f) (hsmall : f.length < 2 ^ 32)
    (h : exchangeStep P x e = some x') : Deaf f stats x' := by
  cases e with
  | resumed =>
      obtain ⟨sender, senderState, hrule, rfl⟩ := senderStep_eq_some hframe h
      refine hdeaf.moves (hrule.holds hdeaf.holds) ?_
      rintro number frame rfl
      cases hrule.writing
  | connected outcome accepted => exact hdeaf.connected hframe h
  | wrote outcome delivered latencyMs now => exact hdeaf.wrote hframe h
  | listenerWrote index outcome =>
      refine hdeaf.listenerStep hframe hsmall ?_ h
      intro c io pending hio
      obtain ⟨rfl, rfl⟩ := Prod.mk.inj (Option.some.inj hio)
      exact .wrote outcome
  | listenerRead index now =>
      refine hdeaf.listenerStep hframe hsmall ?_ h
      intro c io pending hio
      obtain ⟨⟨bytes, rest⟩, hnext, hpair⟩ := Option.map_eq_some_iff.mp hio
      obtain ⟨rfl, rfl⟩ := Prod.mk.inj hpair
      exact .read bytes rest now hnext
  | listenerTimedOut index now =>
      refine hdeaf.listenerStep hframe hsmall ?_ h
      intro c io pending hio
      obtain ⟨rfl, rfl⟩ := Prod.mk.inj (Option.some.inj hio)
      exact .timedOut now
  | listenerFailed index text now =>
      refine hdeaf.listenerStep hframe hsmall ?_ h
      intro c io pending hio
      obtain ⟨rfl, rfl⟩ := Prod.mk.inj (Option.some.inj hio)
      exact .failed text now

theorem run_deaf {senderState listenerState : NetworkState Address}
    {calls : List (ExchangeCall Address)} {t : Exchange Address}
    (hframe : P.message.toBytes P.texts = .ok f) (hsmall : f.length < 2 ^ 32)
    (h : (exchangeMachine P).Run (.start senderState listenerState) calls t) :
    Deaf f listenerState.stats t := by
  refine h.invariant (deaf_start f senderState listenerState) ?_
  intro c hmakes hdeaf
  obtain ⟨t, hstep, hpost⟩ := Option.map_eq_some_iff.mp hmakes
  obtain ⟨_, rfl⟩ := Prod.mk.inj hpost
  exact hdeaf.step hframe hsmall hstep

/-! ## The report -/

def Exchange.received (x : Exchange Address) : List NetworkMessage :=
  x.connections.flatMap Connection.received

/-- The message loops decode the message once, and count it. -/
def ReceivedOnce (P : Parties Address) (listenerState : NetworkState Address)
    (t : Exchange Address) : Prop :=
  t.received = [P.message] ∧ t.listenerState.stats.totalMessagesReceived.toNat =
    listenerState.stats.totalMessagesReceived.toNat + 1

omit [DecidableEq Address] in
theorem Deaf.received (h : Deaf f stats x) : x.received = [] :=
  List.flatMap_eq_nil_iff.mpr h.unheard

theorem run_step {calls : List (ExchangeCall Address)} {e : ExchangeEvent}
    {start : Exchange Address} (hrun : (exchangeMachine P).Run start calls x)
    (h : exchangeStep P x e = some x') :
    (exchangeMachine P).Run start (calls ++ [⟨x, e, (), x'⟩]) x' :=
  hrun.of_step (congrArg (Option.map fun x => ((), x)) h)

theorem can_start {number : ℕ} {lastError : Option CoreError}
    (hframe : P.message.toBytes P.texts = .ok f) (hlimit : f.length ≤ maxMessageSize)
    (hretries : number < P.maxRetries) (hphase : x.sender = .attempt number lastError) :
    exchangeStep P x .resumed = some { x with sender := .connecting number f } := by
  simp [exchangeStep, senderStep, send, startAttempt, hphase, hretries, hframe,
    Nat.not_lt.mpr hlimit]

theorem can_connect {number : ℕ} {frame : Bytes} (hphase : x.sender = .connecting number frame) :
    exchangeStep P x (.connected .ok true) = some
      { x with
        sender := .writing number frame
        connections := .opened P false :: x.connections } := by
  simp [exchangeStep, senderStep, send, hphase]

theorem can_write {number : ℕ} {frame : Bytes} {others : List Connection}
    (hphase : x.sender = .writing number frame)
    (hunknown : x.senderState.peers.lookup P.listener = none)
    (hcount : x.senderState.stats.totalMessagesSent = 0)
    (hconnections : x.connections = c :: others) :
    ∃ x' result, exchangeStep P x (.wrote .ok 0 0 0) = some x' ∧
      x'.sender = .finished (.ok result) := by
  have hadd : P.checks.add 0 1 = some 1 := by
    cases P.checks with
    | on | off => rfl
  simp [exchangeStep, senderStep, send, recordSuccess, NetworkState.withPeer, hphase, hunknown,
    hcount, hadd, hconnections]

/-- A run of two managers that know no peers, in which the first attempt succeeds. -/
theorem sends (hframe : P.message.toBytes P.texts = .ok f) (hlimit : f.length ≤ maxMessageSize)
    (hretries : 0 < P.maxRetries) :
    ∃ calls t result, (exchangeMachine P).Run (.start ⟨∅, .zero⟩ ⟨∅, .zero⟩) calls t ∧
      t.sender = .finished (.ok result) := by
  have hstart := run_step .start (can_start hframe hlimit hretries
    (x := .start ⟨∅, .zero⟩ ⟨∅, .zero⟩) rfl)
  have hconnect := run_step hstart (can_connect rfl)
  obtain ⟨t, result, hwrite, hsent⟩ := can_write (P := P)
    (x := ⟨.writing 0 f, ⟨∅, .zero⟩, ⟨∅, .zero⟩, [.opened P false]⟩) rfl rfl rfl rfl
  exact ⟨_, t, result, run_step hconnect hwrite, hsent⟩

/-- A message that the sender reports as sent is never received, whatever it is, in any run; and
whatever it is, there are runs in which the sender reports it. -/
theorem reported_sent_never_received (hframe : P.message.toBytes P.texts = .ok f)
    (hlimit : f.length ≤ maxMessageSize) :
    (∀ senderState listenerState calls t result,
      (exchangeMachine P).Run (.start senderState listenerState) calls t →
      t.sender = .finished (.ok result) →
      ¬ ReceivedOnce P listenerState t ∧ t.received = [] ∧
        t.listenerState.stats = listenerState.stats) ∧
    (0 < P.maxRetries → ∃ calls t result,
      (exchangeMachine P).Run (.start ⟨∅, .zero⟩ ⟨∅, .zero⟩) calls t ∧
        t.sender = .finished (.ok result)) := by
  refine ⟨?_, sends hframe hlimit⟩
  intro senderState listenerState calls t result hrun _
  have hsmall : f.length < 2 ^ 32 := by
    simp only [maxMessageSize] at hlimit
    omega
  have hdeaf := run_deaf hframe hsmall hrun
  refine ⟨?_, hdeaf.received, hdeaf.stats_eq⟩
  rintro ⟨honce, _⟩
  rw [hdeaf.received] at honce
  cases honce

/-- Two managers that know no peers, and a ping. -/
def pingParties : Parties ℕ := ⟨.on, .plain, .ping 1 2, 1, 0, 1, [9]⟩

theorem reported_sent_never_received_plain :
    (∀ senderState listenerState calls t result,
      (exchangeMachine pingParties).Run (.start senderState listenerState) calls t →
      t.sender = .finished (.ok result) →
      ¬ ReceivedOnce pingParties listenerState t ∧ t.received = [] ∧
        t.listenerState.stats = listenerState.stats) ∧
    (0 < pingParties.maxRetries → ∃ calls t result,
      (exchangeMachine pingParties).Run (.start ⟨∅, .zero⟩ ⟨∅, .zero⟩) calls t ∧
        t.sender = .finished (.ok result)) :=
  reported_sent_never_received (f := pingFrame) rfl (by decide)

/-- The listener takes the ping for a handshake, and is done when the loop begins. -/
theorem ping_taken_for_handshake :
    ∃ calls t result, (exchangeMachine pingParties).Run (.start ⟨∅, .zero⟩ ⟨∅, .zero⟩) calls t ∧
      t.sender = .finished (.ok result) ∧
      (∀ c ∈ t.connections, c.pending = [] ∧ c.phase = .finished (.ok ())) ∧
      ¬ ReceivedOnce pingParties ⟨∅, .zero⟩ t := by
  have hsent := Machine.Run.start.of_step (M := exchangeMachine pingParties)
    (s := .start ⟨∅, .zero⟩ ⟨∅, .zero⟩) (e := .resumed) rfl
      |>.of_step (e := .connected .ok true) rfl |>.of_step (e := .wrote .ok 0 0 0) rfl
  have hread := hsent.of_step (e := .listenerWrote 0 (.ok ())) rfl
    |>.of_step (e := .listenerRead 0 0) rfl |>.of_step (e := .listenerRead 0 0) rfl
  refine ⟨_, _, _, hread, rfl, ?_, ?_⟩
  · intro c hc
    obtain rfl := List.mem_singleton.mp hc
    exact ⟨rfl, rfl⟩
  · rintro ⟨honce, _⟩
    cases honce

end ValidatorSync

end SilverNetwork
