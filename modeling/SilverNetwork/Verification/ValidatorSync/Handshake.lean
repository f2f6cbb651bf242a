import SilverNetwork.Model.ValidatorHandshake
import SilverNetwork.Verification.ValidatorSync.Frames
import SilverNetwork.Verification.ValidatorSync.Receiving

/-! What two managers learn of each other by a handshake. However the bytes are cut into reads, and
whatever else the two managers do, a side records the handshake of the other or nothing. -/

namespace SilverNetwork

namespace ValidatorSync

variable {Address : Type} {texts : Texts Address} {id f part bytes : Bytes} {m m' : NetworkMessage}

/-! ## The frame of a handshake -/

/-- No part of a frame but the whole of it reads as a message. -/
theorem NetworkMessage.fromBytes_prefix (h : m.toBytes texts = .ok f) (hpart : part <+: f)
    (hread : fromBytes texts part = .ok m') : m' = m ∧ part = f := by
  obtain ⟨payload, hpayload, rfl⟩ := toBytes_eq_ok.mp h
  obtain ⟨hlong, rest, hdecode⟩ := fromBytes_eq_ok hread
  have hdrop : part.drop 4 <+: payload := by
    have hfront := hpart.drop 4
    rwa [frame, List.drop_left' (bigEndian_length 4 _)] at hfront
  obtain ⟨rfl, hbody⟩ := codec_exact.whole hpayload ((List.take_prefix _ _).trans hdrop) hdecode
  have hlength := congrArg List.length hbody
  rw [List.length_take, List.length_drop] at hlength
  exact ⟨rfl, hpart.eq_of_length_le (by rw [frame_length]; omega)⟩

theorem ownFrame_of_ok (h : (ownHandshake id).toBytes texts = .ok f) : ownFrame texts id = f := by
  simp only [ownFrame, h]

/-- What reads as a message and begins like the frame of a handshake is all of it. -/
theorem read_ownFrame (hpart : part <+: ownFrame texts id)
    (hread : NetworkMessage.fromBytes texts part = .ok m) :
    m = ownHandshake id ∧ part = ownFrame texts id ∧
      (ownHandshake id).toBytes texts = .ok (ownFrame texts id) := by
  cases hframe : (ownHandshake id).toBytes texts with
  | error e =>
      have hnil : ownFrame texts id = [] := by simp only [ownFrame, hframe]
      rw [hnil, List.prefix_nil] at hpart
      subst hpart
      cases hread
  | ok f =>
      rw [ownFrame_of_ok hframe] at hpart ⊢
      obtain ⟨rfl, rfl⟩ := NetworkMessage.fromBytes_prefix hframe hpart hread
      exact ⟨rfl, rfl, rfl⟩

/-! ## The steps of each side -/

variable [DecidableEq Address] {checks : OverflowChecks} {address : Address}
  {s s' : NetworkState Address}

/-- The kinds of steps of `connect_peer`. -/
inductive ConnectStepRule (checks : OverflowChecks) (texts : Texts Address) (id : Bytes)
    (address : Address) (s : NetworkState Address) : ConnectPhase → ConnectStepIo →
      TaskStep ConnectPhase (Except CoreError Unit) (NetworkState Address) → Prop where
  | unknown (e : CoreError) :
      ConnectStepRule checks texts id address s .begun .locked (.finished (.error e) s)
  | begin (peer : PeerInfo Address) (known : s.peers.lookup address = some peer) :
      ConnectStepRule checks texts id address s .begun .locked (.running .connecting
        { s with peers := s.peers.insert address { peer with state := .connecting } })
  | unconnected (outcome : Outcome) (e : CoreError) (error : String) (failed : outcome ≠ .ok) :
      ConnectStepRule checks texts id address s .connecting (.connected outcome)
        (.finish (.error e) (Locked.failConnection checks address error s))
  | unencoded (e : CoreError) :
      ConnectStepRule checks texts id address s .connecting (.connected .ok)
        (.finished (.error e) s)
  | connect (frame : Bytes) (encodes : (ownHandshake id).toBytes texts = .ok frame) :
      ConnectStepRule checks texts id address s .connecting (.connected .ok)
        (.running .writing s)
  | unwritten (text : String) (e : CoreError) (error : String) :
      ConnectStepRule checks texts id address s .writing (.wrote (.error text))
        (.finish (.error e) (Locked.withPeer address (Locked.failPeer checks error) s))
  | write : ConnectStepRule checks texts id address s .writing (.wrote (.ok ()))
        (.running .reading s)
  | answer (response : ReadOutcome) :
      ConnectStepRule checks texts id address s .reading (.answered response)
        (.finish (.ok ()) (Locked.takeResponse checks texts address response s))

theorem connectStepRule_of_step {phase : ConnectPhase} {io : ConnectStepIo}
    {step : TaskStep ConnectPhase (Except CoreError Unit) (NetworkState Address)}
    (h : connectStep checks texts id address phase io s = some step) :
    ConnectStepRule checks texts id address s phase io step := by
  unfold connectStep at h
  split at h
  case h_1 =>
      split at h
      · obtain rfl := Option.some.inj h
        exact .unknown _
      · rename_i peer known
        obtain rfl := Option.some.inj h
        exact .begin peer known
  case h_2 | h_3 =>
      obtain rfl := Option.some.inj h
      exact .unconnected _ _ _ (by simp)
  case h_4 =>
      split at h
      · obtain rfl := Option.some.inj h
        exact .unencoded _
      · rename_i frame encodes
        obtain rfl := Option.some.inj h
        exact .connect frame encodes
  case h_5 =>
      obtain rfl := Option.some.inj h
      exact .unwritten _ _ _
  case h_6 =>
      obtain rfl := Option.some.inj h
      exact .write
  case h_7 =>
      obtain rfl := Option.some.inj h
      exact .answer _
  case h_8 => cases h

/-- The kinds of steps of `handle_peer_connection`. -/
inductive ListenStepRule (texts : Texts Address) (address : Address) (s : NetworkState Address) :
    ConnectionPhase → ListenIo →
      TaskStep ConnectionPhase (Except CoreError Unit) (NetworkState Address) → Prop where
  | wrote : ListenStepRule texts address s .greeting (.wrote (.ok ())) (.running .greeted s)
  | refuse (phase : ConnectionPhase) (io : ListenIo) (e : CoreError)
      (early : phase = .greeting ∨ phase = .greeted) :
      ListenStepRule texts address s phase io (.finished (.error e) s)
  | accept (bytes : Bytes) (now : Instant) (message : NetworkMessage) (s' : NetworkState Address)
      (reads : NetworkMessage.fromBytes texts bytes = .ok message)
      (accepts : acceptHandshake address message s = some s') :
      ListenStepRule texts address s .greeted (.read (.data bytes) now) (.running .receiving s')
  | receive (bytes : Bytes) (now : Instant) (nonempty : bytes ≠ [])
      (step : TaskStep ConnectionPhase (Except CoreError Unit) (NetworkState Address)) :
      ListenStepRule texts address s .receiving (.read (.data bytes) now) step
  | hangUp (outcome : ReadOutcome) (now : Instant) (s' : NetworkState Address)
      (hangs : hangUp address s = some s') :
      ListenStepRule texts address s .receiving (.read outcome now) (.finished (.ok ()) s')

theorem listenStepRule_of_step {phase : ConnectionPhase} {io : ListenIo}
    {step : TaskStep ConnectionPhase (Except CoreError Unit) (NetworkState Address)}
    (h : listenStep checks texts address phase io s = some step) :
    ListenStepRule texts address s phase io step := by
  unfold listenStep at h
  split at h
  · exact .receive _ _ (List.cons_ne_nil _ _) step
  · obtain ⟨⟨phase', found, s₁⟩, hlisten, rfl⟩ := Option.map_eq_some_iff.mp h
    unfold listen at hlisten
    split at hlisten
    case h_1 =>
        simp only [Option.some.injEq, Prod.mk.injEq] at hlisten
        obtain ⟨rfl, rfl, rfl⟩ := hlisten
        exact .wrote
    case h_2 =>
        simp only [Option.some.injEq, Prod.mk.injEq] at hlisten
        obtain ⟨rfl, rfl, rfl⟩ := hlisten
        exact .refuse _ _ _ (.inl rfl)
    case h_3 | h_4 | h_5 =>
        simp only [Option.some.injEq, Prod.mk.injEq] at hlisten
        obtain ⟨rfl, rfl, rfl⟩ := hlisten
        exact .refuse _ _ _ (.inr rfl)
    case h_6 =>
        split at hlisten
        · simp only [Option.some.injEq, Prod.mk.injEq] at hlisten
          obtain ⟨rfl, rfl, rfl⟩ := hlisten
          exact .refuse _ _ _ (.inr rfl)
        · rename_i message hread
          simp only [Option.map_eq_some_iff, Prod.mk.injEq] at hlisten
          obtain ⟨s₂, haccept, rfl, rfl, rfl⟩ := hlisten
          exact .accept _ _ message s₂ hread haccept
    case h_7 b bytes now hnot => exact absurd rfl (hnot b bytes now rfl)
    case h_8 =>
        simp only [Option.map_eq_some_iff, Prod.mk.injEq] at hlisten
        obtain ⟨s₂, hhangs, rfl, rfl, rfl⟩ := hlisten
        exact .hangUp _ _ s₂ hhangs
    case h_9 => cases hlisten

/-! ## What a side learns -/

/-- What a handshake tells of a validator. -/
def PeerInfo.identity (peer : PeerInfo Address) : Option Bytes × UInt32 × Bytes :=
  (peer.validatorId, peer.version, peer.capabilities)

/-- The same is known of every peer. -/
def SameIdentities (s s' : NetworkState Address) : Prop :=
  ∀ other, (s'.peers.lookup other).map PeerInfo.identity =
    (s.peers.lookup other).map PeerInfo.identity

/-- The peer is connected as the validator `id`, by the handshake that this one sends. -/
def Greets (id : Bytes) (address : Address) (s s' : NetworkState Address) : Prop :=
  ∃ peer, s.peers.lookup address = some peer ∧
    s'.peers = s.peers.insert address (peer.greet id 1 [1, 2, 3, 4, 5, 6, 7])

theorem SameIdentities.of_peers (h : s'.peers = s.peers) : SameIdentities s s' :=
  fun other => by rw [h]

theorem SameIdentities.trans {s'' : NetworkState Address} (h : SameIdentities s s')
    (h' : SameIdentities s' s'') : SameIdentities s s'' :=
  fun other => (h' other).trans (h other)

theorem SameIdentities.insert {peer peer' : PeerInfo Address}
    (hpeer : s.peers.lookup address = some peer) (hsame : peer'.identity = peer.identity) :
    SameIdentities s { s with peers := s.peers.insert address peer' } := by
  intro other
  rw [HashMap.lookup_insert_eq]
  split
  · rename_i hother
    subst hother
    simp [hpeer, hsame]
  · rfl

theorem SameIdentities.withPeer
    {body : PeerInfo Address → Update (PeerInfo Address) (PeerInfo Address)}
    (h : ∀ peer, (Update.left (body peer)).identity = peer.identity) :
    SameIdentities s (Update.left (Locked.withPeer address body s)) := by
  unfold Locked.withPeer
  split
  · exact .of_peers rfl
  · rename_i peer hpeer
    rw [Update.left_within]
    exact .insert hpeer (h peer)

omit [DecidableEq Address] in
/-- A failure is noted on the peer, and leaves the rest of it. -/
theorem failPeer_left (checks : OverflowChecks) (error : String) (peer : PeerInfo Address) :
    ∃ failedAttempts lastError, Update.left (Locked.failPeer checks error peer) =
      { peer with state := .failed, failedAttempts, lastError } := by
  unfold Locked.failPeer Locked.recordFailure
  cases checks.add32 peer.failedAttempts 1 with
  | none => exact ⟨peer.failedAttempts, peer.lastError, rfl⟩
  | some attempts =>
      refine ⟨attempts, some error, ?_⟩
      simp [Update.orPanic, Update.left]

omit [DecidableEq Address] in
theorem identity_failPeer (error : String) (peer : PeerInfo Address) :
    (Update.left (Locked.failPeer checks error peer)).identity = peer.identity := by
  obtain ⟨failedAttempts, lastError, hleft⟩ := failPeer_left checks error peer
  rw [hleft, PeerInfo.identity, PeerInfo.identity]

omit [DecidableEq Address] in
theorem increment_peers (get : BroadcastStats → UInt64)
    (set : BroadcastStats → UInt64 → BroadcastStats) (s : NetworkState Address) :
    (Update.left (Locked.increment checks get set s)).peers = s.peers := by
  unfold Locked.increment
  cases checks.add (get s.stats) 1 with
  | none | some => rfl

theorem failConnection_identities (error : String) :
    SameIdentities s (Update.left (Locked.failConnection checks address error s)) := by
  unfold Locked.failConnection
  split
  · apply Update.left_bind (I := SameIdentities s) (.withPeer (identity_failPeer error))
    intro s₁ h
    exact h.trans (.of_peers (increment_peers _ _ s₁))
  · exact .of_peers rfl

/-- An answer tells nothing but what it says. -/
theorem takeResponse_learns {response : ReadOutcome}
    (hread : ∀ bytes m, response = .data bytes → NetworkMessage.fromBytes texts bytes = .ok m →
      m = ownHandshake id) :
    SameIdentities s (Update.left (Locked.takeResponse checks texts address response s)) ∨
      Greets id address s (Update.left (Locked.takeResponse checks texts address response s)) := by
  have hfail : SameIdentities s (Update.left (Locked.withPeer address
      (Locked.failPeer checks "Handshake response timeout") s)) :=
    .withPeer (identity_failPeer _)
  unfold Locked.takeResponse
  split
  · rename_i b bytes
    split
    · exact .inl (.of_peers rfl)
    · rename_i message hmessage
      obtain rfl := hread _ message rfl hmessage
      simp only [ownHandshake, Locked.completeHandshake]
      split
      · rename_i hmem
        obtain ⟨peer, hpeer⟩ := HashMap.mem_iff_exists_lookup.mp hmem
        refine .inr ⟨peer, hpeer, ?_⟩
        simp only [Locked.withPeer, hpeer]
        exact increment_peers (·.connectedPeerCount)
          (fun stats n => { stats with connectedPeerCount := n })
          { s with peers := s.peers.insert address (peer.greet id 1 [1, 2, 3, 4, 5, 6, 7]) }
      · exact .inl (.of_peers rfl)
  · exact .inl hfail

theorem ConnectStepRule.learns {own : Bytes} {phase : ConnectPhase} {io : ConnectStepIo}
    {step : TaskStep ConnectPhase (Except CoreError Unit) (NetworkState Address)}
    (h : ConnectStepRule checks texts own address s phase io step)
    (hread : ∀ bytes m, io = .answered (.data bytes) →
      NetworkMessage.fromBytes texts bytes = .ok m → m = ownHandshake id) :
    SameIdentities s step.state ∨ Greets id address s step.state := by
  cases h with
  | unknown | unencoded | connect | write => exact .inl (.of_peers rfl)
  | begin peer known => exact .inl (.insert known rfl)
  | unconnected outcome e error =>
      rw [TaskStep.state_finish]
      exact .inl (failConnection_identities error)
  | unwritten text e error =>
      rw [TaskStep.state_finish]
      exact .inl (.withPeer (identity_failPeer error))
  | answer response =>
      rw [TaskStep.state_finish]
      refine takeResponse_learns ?_
      rintro bytes m rfl
      exact hread bytes m rfl

theorem acceptHandshake_learns (h : acceptHandshake address (ownHandshake id) s = some s') :
    SameIdentities s s' ∨ Greets id address s s' := by
  simp only [acceptHandshake, ownHandshake, NetworkState.withPeer] at h
  split at h
  · obtain rfl := Option.some.inj h
    exact .inl (.of_peers rfl)
  · rename_i peer hpeer
    obtain rfl := Option.some.inj h
    exact .inr ⟨peer, hpeer, rfl⟩

theorem hangUp_identities (h : hangUp address s = some s') : SameIdentities s s' := by
  simp only [hangUp, NetworkState.withPeer] at h
  split at h
  · obtain rfl := Option.some.inj h
    exact .of_peers rfl
  · rename_i peer hpeer
    obtain rfl := Option.some.inj h
    exact .insert hpeer rfl

/-- A listener that finds nothing for its message loop counts no message. -/
theorem ListenStepRule.learns {phase : ConnectionPhase} {io : ListenIo}
    {step : TaskStep ConnectionPhase (Except CoreError Unit) (NetworkState Address)}
    (h : ListenStepRule texts address s phase io step)
    (hread : ∀ bytes now m, phase = .greeted → io = .read (.data bytes) now →
      NetworkMessage.fromBytes texts bytes = .ok m → m = ownHandshake id)
    (hquiet : ∀ bytes now, phase = .receiving → io = .read (.data bytes) now → bytes = []) :
    (SameIdentities s step.state ∨ Greets id address s step.state) ∧
      step.state.stats = s.stats := by
  cases h with
  | wrote | refuse => exact ⟨.inl (.of_peers rfl), rfl⟩
  | accept bytes now message s' reads accepts =>
      obtain rfl := hread bytes now message rfl rfl reads
      exact ⟨acceptHandshake_learns accepts, withPeer_stats accepts⟩
  | receive bytes now nonempty => exact absurd (hquiet bytes now rfl rfl) nonempty
  | hangUp outcome now s' hangs => exact ⟨.inl (hangUp_identities hangs), withPeer_stats hangs⟩

/-! ## Both sides -/

variable {P : HandshakeParties Address} {x y : Handshake Address}
  {r : Progress (Except CoreError Unit)}

/-- Each side reads the beginning of the other's handshake, and the listener goes on only once it
has read all of it. -/
structure HandshakeInvariant (P : HandshakeParties Address) (x : Handshake Address) : Prop where
  toListener : x.toListener.written <+: ownFrame P.texts P.connectorId
  toConnector : x.toConnector.written <+: ownFrame P.texts P.listenerId
  unread : x.connector ≠ none → x.toConnector.taken = 0
  unaccepted : x.connector = some .begun ∨ x.connector = some .connecting →
    x.listener = none ∧ x.toListener.taken = 0
  ungreeted : x.listener = some .greeting ∨ x.listener = some .greeted → x.toListener.taken = 0
  drained : x.listener = some .receiving →
    x.toListener.written = ownFrame P.texts P.connectorId ∧ x.toListener.pending = []

/-- What a step of the two sides does: one of them goes on, with what it may have read of the
other's handshake, or some bytes get onto the wire. -/
inductive SideStep (P : HandshakeParties Address) (x y : Handshake Address) : Prop where
  | connector (phase : ConnectPhase) (io : ConnectStepIo)
      (step : TaskStep ConnectPhase (Except CoreError Unit) (NetworkState Address))
      (running : x.connector = some phase)
      (rule : ConnectStepRule P.checks P.texts P.connectorId P.listener x.connectorState phase io
        step)
      (after : y.connector = step.task ∧ y.connectorState = step.state)
      (closes : y.toListener.closed = step.task.isNone)
      (others : y.listenerState = x.listenerState ∧ (y.listener = x.listener ∨
        phase = .connecting ∧ (y.listener = none ∨ y.listener = some .greeting)))
      (reads : ∀ bytes, io = .answered (.data bytes) →
        bytes <+: ownFrame P.texts P.listenerId ∧ bytes.length ≤ 4096)
  | listener (phase : ConnectionPhase) (io : ListenIo)
      (step : TaskStep ConnectionPhase (Except CoreError Unit) (NetworkState Address))
      (running : x.listener = some phase)
      (rule : ListenStepRule P.texts P.peerAddr x.listenerState phase io step)
      (after : y.listener = step.task ∧ y.listenerState = step.state)
      (others : y.connectorState = x.connectorState ∧ y.connector = x.connector ∧
        y.toListener.closed = x.toListener.closed)
      (reads : ∀ bytes now, phase = .greeted → io = .read (.data bytes) now →
        bytes <+: ownFrame P.texts P.connectorId ∧ bytes.length ≤ 4096)
      (quiet : ∀ bytes now, phase = .receiving → io = .read (.data bytes) now → bytes = [])
  | wire (same : y.connector = x.connector ∧ y.connectorState = x.connectorState ∧
      y.listener = x.listener ∧ y.listenerState = x.listenerState ∧
      y.toListener.closed = x.toListener.closed)

theorem ConnectStepRule.task {phase phase' : ConnectPhase} {io : ConnectStepIo}
    {step : TaskStep ConnectPhase (Except CoreError Unit) (NetworkState Address)}
    (h : ConnectStepRule checks texts id address s phase io step)
    (htask : step.task = some phase') :
    (phase = .begun ∧ phase' = .connecting) ∨ (phase = .connecting ∧ phase' = .writing) ∨
      phase = .writing ∧ phase' = .reading := by
  obtain ⟨s', hrunning⟩ := TaskStep.eq_running_of_task htask
  cases h with
  | begin | connect | write =>
      obtain ⟨rfl, _⟩ := TaskStep.running.inj hrunning
      simp
  | unknown | unencoded => cases hrunning
  | unconnected | unwritten | answer => exact absurd hrunning TaskStep.finish_ne_running

/-- The step of `connect_peer`, and what it leaves of the rest. -/
theorem connectorStep_eq_some {io : ConnectStepIo} (h : x.connectorStep P io = some (r, y)) :
    ∃ phase step, x.connector = some phase ∧
      ConnectStepRule P.checks P.texts P.connectorId P.listener x.connectorState phase io step ∧
      y = { x with
        connector := step.task
        connectorState := step.state
        toListener := x.toListener.close step.task.isNone } := by
  simp only [Handshake.connectorStep, Option.bind_eq_bind, Option.bind_eq_some_iff,
    Option.some.injEq, Prod.mk.injEq] at h
  obtain ⟨phase, hphase, step, hstep, _, rfl⟩ := h
  exact ⟨phase, step, hphase, connectStepRule_of_step hstep, rfl⟩

theorem listenerStep_eq_some {io : ListenIo} (h : x.listenerStep P io = some (r, y)) :
    ∃ phase step, x.listener = some phase ∧
      ListenStepRule P.texts P.peerAddr x.listenerState phase io step ∧
      y = { x with
        listener := step.task
        listenerState := step.state
        toConnector := x.toConnector.close step.task.isNone } := by
  simp only [Handshake.listenerStep, Option.bind_eq_bind, Option.bind_eq_some_iff,
    Option.some.injEq, Prod.mk.injEq] at h
  obtain ⟨phase, hphase, step, hstep, _, rfl⟩ := h
  exact ⟨phase, step, hphase, listenStepRule_of_step hstep, rfl⟩

/-- What an attempt to read leaves, and what it may return. -/
theorem take_eq_some {size : ℕ} {attempt : ReadAttempt} {outcome : ReadOutcome}
    {p pipe : Pipe UInt8} (h : attempt.take size p = some (outcome, pipe)) :
    pipe.written = p.written ∧ pipe.closed = p.closed ∧
      ∀ bytes, outcome = .data bytes → ∃ count, p.read size count = some (bytes, pipe) := by
  cases attempt with
  | bytes count =>
      obtain ⟨⟨items, pipe'⟩, hitems, heq⟩ := Option.map_eq_some_iff.mp h
      obtain ⟨rfl, rfl⟩ := Prod.mk.inj heq
      obtain ⟨_, _, hwritten, _, hclosed⟩ := Pipe.read_eq_some hitems
      refine ⟨hwritten, hclosed, ?_⟩
      rintro bytes ⟨⟩
      exact ⟨count, hitems⟩
  | error | timeout =>
      obtain ⟨rfl, rfl⟩ := Prod.mk.inj (Option.some.inj h)
      exact ⟨rfl, rfl, by simp⟩

/-- A step of the connector that does not read what the listener has sent. -/
theorem HandshakeInvariant.connectorStep {pipe : Pipe UInt8} {io : ConnectStepIo}
    (h : HandshakeInvariant P { x with toListener := pipe })
    (hio : ∀ response, io ≠ .answered response)
    (hstep : { x with toListener := pipe }.connectorStep P io = some (r, y)) :
    HandshakeInvariant P y ∧ SideStep P x y := by
  obtain ⟨phase, step, hphase, hrule, rfl⟩ := connectorStep_eq_some hstep
  replace hphase : x.connector = some phase := hphase
  refine ⟨⟨h.toListener, h.toConnector, ?_, ?_, h.ungreeted, h.drained⟩,
    .connector phase io step hphase hrule ⟨rfl, rfl⟩ rfl ⟨rfl, .inl rfl⟩ ?_⟩
  · intro _
    exact h.unread (by simp [hphase])
  · intro hwaits
    have hbegun : phase = .begun := by
      rcases hwaits with hwaits | hwaits
      · rcases hrule.task hwaits with ⟨_, heq⟩ | ⟨_, heq⟩ | ⟨_, heq⟩ <;> cases heq
      · rcases hrule.task hwaits with ⟨hbegun, _⟩ | ⟨_, heq⟩ | ⟨_, heq⟩
        · exact hbegun
        · cases heq
        · cases heq
    exact h.unaccepted (.inl (by rw [hphase, hbegun]))
  · intro bytes hanswered
    exact absurd hanswered (hio _)

/-- The answer that the connector reads is the beginning of the listener's handshake. -/
theorem HandshakeInvariant.connectorReads {attempt : ReadAttempt} {outcome : ReadOutcome}
    {pipe : Pipe UInt8} (h : HandshakeInvariant P x)
    (hread : attempt.take 4096 x.toConnector = some (outcome, pipe))
    (hstep : { x with toConnector := pipe }.connectorStep P (.answered outcome) = some (r, y)) :
    HandshakeInvariant P y ∧ SideStep P x y := by
  obtain ⟨phase, step, hphase, hrule, rfl⟩ := connectorStep_eq_some hstep
  have htaken := h.unread (by simpa using Option.ne_none_iff_exists'.mpr ⟨phase, hphase⟩)
  have hended : step.task = none := by
    cases hrule with
    | answer response =>
        cases Locked.takeResponse P.checks P.texts P.listener outcome x.connectorState with
        | ok | error => rfl
  refine ⟨⟨h.toListener, ?_, ?_, ?_, h.ungreeted, h.drained⟩,
    .connector phase _ step hphase hrule ⟨rfl, rfl⟩ rfl ⟨rfl, .inl rfl⟩ ?_⟩
  · rw [(take_eq_some hread).1]
    exact h.toConnector
  · simp [hended]
  · simp [hended]
  · intro bytes hanswered
    obtain rfl := ConnectStepIo.answered.inj hanswered
    obtain ⟨count, hitems⟩ := (take_eq_some hread).2.2 bytes rfl
    obtain ⟨hfront, hlength, _⟩ := Pipe.read_first htaken h.toConnector hitems
    exact ⟨hfront, hlength⟩

omit [DecidableEq Address] in
/-- A connection that is taken on begins with the own handshake, if there is one. -/
theorem accept_eq (P : HandshakeParties Address) (x : Handshake Address) :
    ((x.accept P).listener = none ∨ (x.accept P).listener = some .greeting) ∧
      (x.accept P).listenerState = x.listenerState ∧
      (x.accept P).toListener = x.toListener ∧
      (x.accept P).connector = x.connector ∧
      (x.accept P).connectorState = x.connectorState ∧
      ∃ closed, (x.accept P).toConnector = x.toConnector.close closed := by
  unfold Handshake.accept openConnection
  cases (ownHandshake P.listenerId).toBytes P.texts with
  | error e => exact ⟨.inl rfl, rfl, rfl, rfl, rfl, _, rfl⟩
  | ok frame => exact ⟨.inr rfl, rfl, rfl, rfl, rfl, _, rfl⟩

omit [DecidableEq Address] in
theorem HandshakeInvariant.accept (h : HandshakeInvariant P x) (htaken : x.toListener.taken = 0)
    (hmade : ¬ (x.connector = some .begun ∨ x.connector = some .connecting)) :
    HandshakeInvariant P (x.accept P) := by
  obtain ⟨hlistener, _, htoListener, hconnector, _, closed, htoConnector⟩ := accept_eq P x
  constructor
  · rw [htoListener]
    exact h.toListener
  · rw [htoConnector]
    exact h.toConnector
  · rw [hconnector, htoConnector]
    exact h.unread
  · rw [hconnector]
    exact fun hwaits => absurd hwaits hmade
  · rw [htoListener]
    exact fun _ => htaken
  · rcases hlistener with hlistener | hlistener <;> simp [hlistener]

theorem HandshakeInvariant.connected {outcome : Outcome} {accepted : Bool}
    (h : HandshakeInvariant P x)
    (hstep : x.step P (.connected outcome accepted) = some (r, y)) :
    HandshakeInvariant P y ∧ SideStep P x y := by
  obtain ⟨⟨r', z⟩, hconnect, heq⟩ := Option.map_eq_some_iff.mp hstep
  obtain ⟨rfl, rfl⟩ := Prod.mk.inj heq
  obtain ⟨hz, hside⟩ := h.connectorStep (by simp) hconnect
  split
  · obtain ⟨phase, step, hphase, hrule, rfl⟩ := connectorStep_eq_some hconnect
    have hconnecting : phase = .connecting := by
      cases hrule with
      | unconnected | unencoded | connect => rfl
    obtain ⟨_, htaken⟩ := h.unaccepted (.inr (by rw [hphase, hconnecting]))
    have hmade : ¬ (step.task = some .begun ∨ step.task = some .connecting) := by
      rintro (htask | htask)
      · rcases hrule.task htask with ⟨_, heq⟩ | ⟨_, heq⟩ | ⟨_, heq⟩ <;> cases heq
      · rcases hrule.task htask with ⟨hbegun, _⟩ | ⟨_, heq⟩ | ⟨_, heq⟩
        · rw [hconnecting] at hbegun
          cases hbegun
        · cases heq
        · cases heq
    obtain ⟨hlistener, hstate, hwire, hconnector, hconnectorState, _⟩ := accept_eq P { x with
      connector := step.task
      connectorState := step.state
      toListener := x.toListener.close step.task.isNone }
    refine ⟨hz.accept htaken hmade, .connector phase _ step hphase hrule
      ⟨hconnector, hconnectorState⟩ ?_ ⟨hstate, .inr ⟨hconnecting, hlistener⟩⟩ (by simp)⟩
    rw [hwire]
    rfl
  · exact ⟨hz, hside⟩

/-- The listener writes, or fails before it has read anything. -/
theorem HandshakeInvariant.listenerWrites {pipe : Pipe UInt8} {outcome : Except String Unit}
    (h : HandshakeInvariant P { x with toConnector := pipe })
    (hstep : { x with toConnector := pipe }.listenerStep P (.wrote outcome) = some (r, y)) :
    HandshakeInvariant P y ∧ SideStep P x y := by
  obtain ⟨phase, step, hphase, hrule, rfl⟩ := listenerStep_eq_some hstep
  have htask : step.task = none ∨ step.task = some .greeted ∧ phase = .greeting := by
    cases hrule with
    | wrote => exact .inr ⟨rfl, rfl⟩
    | refuse => exact .inl rfl
  refine ⟨⟨h.toListener, h.toConnector, h.unread, ?_, ?_, ?_⟩,
    .listener phase _ step hphase hrule ⟨rfl, rfl⟩ ⟨rfl, rfl, rfl⟩ (by simp) (by simp)⟩
  · intro hwaits
    cases hphase.symm.trans (h.unaccepted hwaits).1
  · intro hgreeted
    rcases htask with hnone | ⟨_, hgreeting⟩
    · simp [hnone] at hgreeted
    · exact h.ungreeted (.inl (by rw [← hgreeting]; exact hphase))
  · rcases htask with hnone | ⟨hsome, _⟩
    · simp [hnone]
    · simp [hsome]

/-- What the listener reads is the beginning of the connector's handshake, and behind all of it
there is nothing. -/
theorem HandshakeInvariant.listenerReads {phase : ConnectionPhase} {attempt : ReadAttempt}
    {now : Instant} {outcome : ReadOutcome} {pipe : Pipe UInt8} (h : HandshakeInvariant P x)
    (hphase : x.listener = some phase)
    (hread : attempt.take phase.bufferSize x.toListener = some (outcome, pipe))
    (hstep : { x with toListener := pipe }.listenerStep P (.read outcome now) = some (r, y)) :
    HandshakeInvariant P y ∧ SideStep P x y := by
  obtain ⟨phase', step, hphase', hrule, rfl⟩ := listenerStep_eq_some hstep
  obtain rfl := Option.some.inj (hphase.symm.trans hphase')
  obtain ⟨hwritten, hclosed, hdata⟩ := take_eq_some hread
  have hgreeted : ∀ bytes, phase = .greeted → outcome = .data bytes →
      bytes <+: ownFrame P.texts P.connectorId ∧ bytes.length ≤ 4096 ∧
        pipe.taken = bytes.length ∧ bytes <+: pipe.written := by
    rintro bytes rfl rfl
    obtain ⟨count, hitems⟩ := hdata bytes rfl
    have htaken := h.ungreeted (.inr hphase)
    obtain ⟨hfront, hlength, _, htaken'⟩ := Pipe.read_first htaken h.toListener hitems
    have hpending := (Pipe.read_eq_some hitems).1
    rw [Pipe.pending, htaken, List.drop_zero, ← hwritten] at hpending
    exact ⟨hfront, hlength, htaken', hpending⟩
  have hquiet : ∀ bytes, phase = .receiving → outcome = .data bytes → bytes = [] := by
    rintro bytes rfl rfl
    obtain ⟨count, hitems⟩ := hdata bytes rfl
    exact (Pipe.read_of_drained (h.drained hphase).2 hitems).1
  refine ⟨⟨?_, h.toConnector, h.unread, ?_, ?_, ?_⟩,
    .listener phase _ step hphase hrule ⟨rfl, rfl⟩ ⟨rfl, rfl, hclosed⟩ ?_ ?_⟩
  · rw [hwritten]
    exact h.toListener
  · intro hwaits
    cases hphase.symm.trans (h.unaccepted hwaits).1
  · intro hwaits
    cases hrule with
    | refuse | accept | hangUp => simp [TaskStep.task] at hwaits
    | receive bytes now' nonempty => exact absurd (hquiet bytes rfl rfl) nonempty
  · intro hreceiving
    cases hrule with
    | refuse | hangUp => simp [TaskStep.task] at hreceiving
    | receive bytes now' nonempty => exact absurd (hquiet bytes rfl rfl) nonempty
    | accept bytes now' message s' reads accepts =>
        obtain ⟨hfront, _, hlength, hpart⟩ := hgreeted bytes rfl rfl
        obtain ⟨_, rfl, _⟩ := read_ownFrame hfront reads
        have hall : pipe.written = ownFrame P.texts P.connectorId := by
          rw [hwritten] at hpart ⊢
          exact h.toListener.eq_of_length_le hpart.length_le
        refine ⟨hall, ?_⟩
        rw [Pipe.pending, hall, hlength, List.drop_length]
  · intro bytes now' hphase' hio
    obtain ⟨hfront, hlength, _⟩ := hgreeted bytes hphase' (ListenIo.read.inj hio).1
    exact ⟨hfront, hlength⟩
  · intro bytes now' hphase' hio
    exact hquiet bytes hphase' (ListenIo.read.inj hio).1

omit [DecidableEq Address] in
theorem HandshakeInvariant.sends {pipe : Pipe UInt8} (h : HandshakeInvariant P x)
    (hfront : pipe.written <+: ownFrame P.texts P.connectorId)
    (htaken : pipe.taken = x.toListener.taken)
    (hdone : x.toListener.written = ownFrame P.texts P.connectorId → pipe = x.toListener) :
    HandshakeInvariant P { x with toListener := pipe } := by
  refine ⟨hfront, h.toConnector, h.unread, ?_, ?_, ?_⟩
  · intro hwaits
    obtain ⟨hidle, hunread⟩ := h.unaccepted hwaits
    exact ⟨hidle, htaken.trans hunread⟩
  · intro hwaits
    exact htaken.trans (h.ungreeted hwaits)
  · intro hreceiving
    obtain ⟨hwritten, hpending⟩ := h.drained hreceiving
    simp only [hdone hwritten]
    exact ⟨hwritten, hpending⟩

omit [DecidableEq Address] in
theorem HandshakeInvariant.answers {pipe : Pipe UInt8} (h : HandshakeInvariant P x)
    (hfront : pipe.written <+: ownFrame P.texts P.listenerId)
    (htaken : pipe.taken = x.toConnector.taken) :
    HandshakeInvariant P { x with toConnector := pipe } :=
  ⟨h.toListener, hfront, fun hbusy => htaken.trans (h.unread hbusy), h.unaccepted, h.ungreeted,
    h.drained⟩

/-- A step of one of the two sides, and not of another task of either manager. -/
def HandshakeEvent.isOwn : HandshakeEvent Address → Bool
  | .others _ _ => false
  | _ => true

theorem HandshakeInvariant.step {e : HandshakeEvent Address} (h : HandshakeInvariant P x)
    (hstep : x.step P e = some (r, y)) :
    HandshakeInvariant P y ∧ (e.isOwn → SideStep P x y) := by
  suffices hboth : HandshakeInvariant P y ∧ SideStep P x y ∨
      HandshakeInvariant P y ∧ e.isOwn = false by
    rcases hboth with ⟨hy, hside⟩ | ⟨hy, hothers⟩
    · exact ⟨hy, fun _ => hside⟩
    · exact ⟨hy, fun hown => absurd hown (by simp [hothers])⟩
  cases e with
  | connectorLocked => exact .inl (h.connectorStep (by simp) hstep)
  | connected outcome accepted => exact .inl (h.connected hstep)
  | connectorSends count =>
      simp only [Handshake.step] at hstep
      split at hstep
      · obtain ⟨_, rfl⟩ := Prod.mk.inj (Option.some.inj hstep)
        refine .inl ⟨h.sends (Pipe.send_prefix _ _ _) rfl fun hdone => ?_,
          .wire ⟨rfl, rfl, rfl, rfl, rfl⟩⟩
        exact Pipe.send_of_written hdone count
      · cases hstep
  | connectorWrote outcome =>
      cases outcome with
      | ok written =>
          have hflushed : HandshakeInvariant P (x.connectorFlush P) :=
            h.sends (List.prefix_refl _) rfl Pipe.flush_of_written
          exact .inl (hflushed.connectorStep (by simp) hstep)
      | error text => exact .inl (h.connectorStep (by simp) hstep)
  | connectorReads attempt =>
      obtain ⟨⟨outcome, pipe⟩, hread, hanswer⟩ := Option.bind_eq_some_iff.mp hstep
      exact .inl (h.connectorReads hread hanswer)
  | listenerSends count =>
      simp only [Handshake.step] at hstep
      split at hstep
      · obtain ⟨_, rfl⟩ := Prod.mk.inj (Option.some.inj hstep)
        exact .inl ⟨h.answers (Pipe.send_prefix _ _ _) rfl, .wire ⟨rfl, rfl, rfl, rfl, rfl⟩⟩
      · cases hstep
  | listenerWrote outcome =>
      cases outcome with
      | ok written =>
          have hflushed : HandshakeInvariant P (x.listenerFlush P) :=
            h.answers (List.prefix_refl _) rfl
          exact .inl (hflushed.listenerWrites hstep)
      | error text => exact .inl (h.listenerWrites hstep)
  | listenerReads attempt now =>
      obtain ⟨phase, hphase, hrest⟩ := Option.bind_eq_some_iff.mp hstep
      obtain ⟨⟨outcome, pipe⟩, hread, hheard⟩ := Option.bind_eq_some_iff.mp hrest
      exact .inl (h.listenerReads hphase hread hheard)
  | others connectorState listenerState =>
      obtain ⟨_, rfl⟩ := Prod.mk.inj (Option.some.inj hstep)
      exact .inr ⟨⟨h.toListener, h.toConnector, h.unread, h.unaccepted, h.ungreeted, h.drained⟩,
        rfl⟩

omit [DecidableEq Address] in
theorem HandshakeInvariant.start (P : HandshakeParties Address)
    (connectorState listenerState : NetworkState Address) :
    HandshakeInvariant P (.start connectorState listenerState) where
  toListener := List.nil_prefix
  toConnector := List.nil_prefix
  unread := fun _ => rfl
  unaccepted := fun _ => ⟨rfl, rfl⟩
  ungreeted := fun _ => rfl
  drained := by simp [Handshake.start]

variable {calls : List (HandshakeCall Address)} {connectorState listenerState : NetworkState Address}

theorem handshake_invariant
    (h : (handshakeMachine P).Run (.start connectorState listenerState) calls x) :
    HandshakeInvariant P x :=
  h.invariant (HandshakeInvariant.start P connectorState listenerState)
    fun _ hmakes hpre => (hpre.step hmakes).1

/-- What a step tells the two sides of each other. -/
structure Learns (P : HandshakeParties Address) (x y : Handshake Address) : Prop where
  connector : SameIdentities x.connectorState y.connectorState ∨
    Greets P.listenerId P.listener x.connectorState y.connectorState
  listener : SameIdentities x.listenerState y.listenerState ∨
    Greets P.connectorId P.peerAddr x.listenerState y.listenerState
  uncounted : y.listenerState.stats = x.listenerState.stats

theorem SideStep.learns (h : SideStep P x y) : Learns P x y := by
  cases h with
  | connector phase io step running rule after closes others reads =>
      obtain ⟨_, hstate⟩ := after
      refine ⟨?_, .inl (.of_peers (by rw [others.1])), by rw [others.1]⟩
      rw [hstate]
      refine rule.learns ?_
      intro bytes m hanswered hmessage
      exact (read_ownFrame (reads bytes hanswered).1 hmessage).1
  | listener phase io step running rule after others reads quiet =>
      obtain ⟨_, hstate⟩ := after
      have hhandshake : ∀ bytes now m, phase = .greeted → io = .read (.data bytes) now →
          NetworkMessage.fromBytes P.texts bytes = .ok m → m = ownHandshake P.connectorId := by
        intro bytes now m hphase hio hmessage
        exact (read_ownFrame (reads bytes now hphase hio).1 hmessage).1
      obtain ⟨hlearns, hstats⟩ := rule.learns hhandshake quiet
      refine ⟨.inl (.of_peers (by rw [others.1])), ?_, ?_⟩
      · rw [hstate]
        exact hlearns
      · rw [hstate]
        exact hstats
  | wire same =>
      obtain ⟨_, hconnector, _, hlistener, _⟩ := same
      exact ⟨.inl (.of_peers (by rw [hconnector])), .inl (.of_peers (by rw [hlistener])),
        by rw [hlistener]⟩

/-- In every run, however the bytes of the two handshakes are cut and whatever else the managers do
meanwhile, each step of the two sides leaves all identities as they are, or connects the other side
as the validator that it is. The listener never counts a message. -/
theorem handshake_agreement
    (h : (handshakeMachine P).Run (.start connectorState listenerState) calls x) :
    ∀ c ∈ calls, c.event.isOwn → Learns P c.pre c.post := by
  intro c hc hown
  obtain ⟨before, hbefore, _⟩ := h.before hc
  exact (((handshake_invariant hbefore).step (h.makes hc)).2 hown).learns

/-- Two validators that know each other by address only. -/
def HandshakeParties.plain : HandshakeParties ℕ where
  checks := .on
  texts := .plain
  connectorId := [7]
  listenerId := [8, 9]
  peerAddr := 1
  listener := 2

/-- A manager that has just added one peer. -/
def NetworkState.knowing (address : Address) (now : Instant) : NetworkState Address where
  peers := AList.insert address (.new address now) ∅
  stats := .zero

/-- A run in which the listener reads a whole handshake, cut on its way in two. -/
theorem handshake_agreement_plain :
    ∃ calls x, (handshakeMachine .plain).Run (.start (.knowing 2 0) (.knowing 1 0)) calls x ∧
      x.listenerState.peers.lookup 1 =
        some ((PeerInfo.new 1 0).greet [7] 1 [1, 2, 3, 4, 5, 6, 7]) ∧
      ∀ c ∈ calls, c.event.isOwn → Learns .plain c.pre c.post := by
  have hrun := Machine.Run.start.of_step (M := handshakeMachine .plain)
    (s := .start (.knowing 2 0) (.knowing 1 0)) (e := .connectorLocked) rfl
      |>.of_step (e := .connected .ok true) rfl
      |>.of_step (e := .listenerWrote (.ok ())) rfl
      |>.of_step (e := .connectorSends 20) rfl
      |>.of_step (e := .connectorWrote (.ok ())) rfl
      |>.of_step (e := .listenerReads (.bytes 36) 0) rfl
  exact ⟨_, _, hrun, rfl, handshake_agreement hrun⟩

end ValidatorSync

end SilverNetwork
