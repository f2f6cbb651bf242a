import SilverNetwork.Verification.ValidatorSync.Connecting
import SilverNetwork.Verification.ValidatorSync.Handshake

/-! How a handshake ends. The side that connects is connected only once it has dropped the socket,
and the other only as long as it reads from it, so that the two are never left connected. -/

namespace SilverNetwork

namespace ValidatorSync

variable {Address : Type} {texts : Texts Address} {id f : Bytes}

/-! ## Handshakes that one read can hold -/

/-- The handshake can be sent, and the buffer of a single read holds it. -/
def FitsBuffer (texts : Texts Address) (id : Bytes) : Prop :=
  (ownHandshake id).toBytes texts = .ok (ownFrame texts id) ∧
    (ownFrame texts id).length ≤ 4096

/-- The fields of a handshake, the last of which are always the same. -/
theorem handshake_encode {payload : Bytes} :
    NetworkMessage.codec.encode (ownHandshake id) = .ok payload ↔ id.length < 2 ^ 64 ∧
      payload = littleEndian 4 5 ++ (littleEndian 8 id.length ++ id ++
        (littleEndian 4 1 ++ (littleEndian 8 7 ++ [1, 2, 3, 4, 5, 6, 7]))) := by
  have hcapabilities : Codec.bytes.encode ([1, 2, 3, 4, 5, 6, 7] : Bytes) =
      .ok (littleEndian 8 7 ++ [1, 2, 3, 4, 5, 6, 7]) := Codec.bytes_encode (by decide)
  have hrest := Codec.prod_encode (Codec.u32_encode 1) hcapabilities
  constructor
  · intro h
    obtain ⟨fields, hfields, rfl⟩ := Codec.tagged_eq_ok.mp h
    obtain ⟨first, hfirst, _⟩ := Encoder.bind_eq_ok.mp hfields
    obtain ⟨length, hlength, _⟩ := Encoder.bind_eq_ok.mp hfirst
    have hsmall : id.length < 2 ^ 64 := by
      by_contra hlarge
      rw [Codec.encodeLength, if_neg hlarge] at hlength
      cases hlength
    have hall := Codec.prod_encode (Codec.bytes_encode hsmall) hrest
    obtain rfl := Except.ok.inj (hfields.symm.trans hall)
    exact ⟨hsmall, rfl⟩
  · rintro ⟨hsmall, rfl⟩
    have hall := Codec.prod_encode (Codec.bytes_encode hsmall) hrest
    exact Codec.tagged_eq_ok.mpr ⟨_, hall, rfl⟩

/-- The handshakes of validators whose identities have up to 4061 bytes fit, and no others. -/
theorem fitsBuffer_iff : FitsBuffer texts id ↔ id.length ≤ 4061 := by
  constructor
  · rintro ⟨hbytes, hfits⟩
    obtain ⟨payload, hpayload, hframe⟩ := NetworkMessage.toBytes_eq_ok.mp hbytes
    obtain ⟨_, rfl⟩ := handshake_encode.mp hpayload
    rw [hframe, NetworkMessage.frame_length] at hfits
    simp only [List.length_append, littleEndian_length, List.length_cons, List.length_nil] at hfits
    omega
  · intro hshort
    have hpayload := handshake_encode.mpr ⟨(by omega : id.length < 2 ^ 64), rfl⟩
    have hbytes : (ownHandshake id).toBytes texts = .ok (NetworkMessage.frame _) :=
      NetworkMessage.toBytes_eq_ok.mpr ⟨_, hpayload, rfl⟩
    rw [FitsBuffer, ownFrame_of_ok hbytes, NetworkMessage.frame_length]
    refine ⟨hbytes, ?_⟩
    simp only [List.length_append, littleEndian_length, List.length_cons, List.length_nil]
    omega

/-! ## What becomes of the entries -/

variable [DecidableEq Address] {P : HandshakeParties Address} {x y : Handshake Address}
  {address : Address} {s : NetworkState Address} {peer : PeerInfo Address}

/-- What is known of the peer is what the handshake of the validator `id` says. -/
def PeerInfo.IsValidator (id : Bytes) (peer : PeerInfo Address) : Prop :=
  peer.identity = (some id, 1, [1, 2, 3, 4, 5, 6, 7])

/-- Nothing is known of the peer, which is not connected. -/
structure PeerInfo.Unknown (peer : PeerInfo Address) : Prop where
  identity : peer.validatorId = none
  state : peer.state ≠ .connected

omit [DecidableEq Address] in
theorem PeerInfo.isValidator_greet (id : Bytes) (peer : PeerInfo Address) :
    (peer.greet id 1 [1, 2, 3, 4, 5, 6, 7]).IsValidator id ∧
      (peer.greet id 1 [1, 2, 3, 4, 5, 6, 7]).state = .connected := ⟨rfl, rfl⟩

theorem lookup_withPeer (hpeer : s.peers.lookup address = some peer)
    (body : PeerInfo Address → Update (PeerInfo Address) (PeerInfo Address)) :
    (Update.left (Locked.withPeer address body s)).peers.lookup address =
      some (Update.left (body peer)) := by
  simp only [Locked.withPeer, hpeer, Update.left_within, AList.lookup_insert]

theorem lookup_failConnection (hpeer : s.peers.lookup address = some peer)
    (checks : OverflowChecks) (error : String) :
    (Update.left (Locked.failConnection checks address error s)).peers.lookup address =
      some (Update.left (Locked.failPeer checks error peer)) := by
  have hmem : address ∈ s.peers := HashMap.mem_iff_exists_lookup.mpr ⟨peer, hpeer⟩
  simp only [Locked.failConnection, hmem, if_true]
  apply Update.left_bind (I := fun s₁ : NetworkState Address => s₁.peers.lookup address =
    some (Update.left (Locked.failPeer checks error peer))) (lookup_withPeer hpeer _)
  intro s₁ hs₁
  rw [increment_peers]
  exact hs₁

omit [DecidableEq Address] in
theorem PeerInfo.Unknown.failPeer {checks : OverflowChecks} (h : peer.Unknown) (error : String) :
    (Update.left (Locked.failPeer checks error peer)).Unknown := by
  obtain ⟨failedAttempts, lastError, hleft⟩ := failPeer_left checks error peer
  rw [hleft]
  exact ⟨h.identity, by simp⟩

/-- What an answer makes of an unknown peer. -/
theorem takeResponse_unknown {checks : OverflowChecks} {response : ReadOutcome}
    (hpeer : s.peers.lookup address = some peer) (h : peer.Unknown)
    (hread : ∀ bytes, response = .data bytes → bytes <+: ownFrame texts id ∧ bytes.length ≤ 4096) :
    ∃ peer', (Update.left (Locked.takeResponse checks texts address response s)).peers.lookup
        address = some peer' ∧
      (peer'.Unknown ∨ peer'.IsValidator id ∧ peer'.state = .connected ∧ id.length ≤ 4061) := by
  unfold Locked.takeResponse
  split
  · rename_i b bytes
    split
    · exact ⟨peer, hpeer, .inl h⟩
    · rename_i message hmessage
      obtain ⟨hfront, hlength⟩ := hread _ rfl
      obtain ⟨rfl, hall, hbytes⟩ := read_ownFrame hfront hmessage
      have hmem : address ∈ s.peers := HashMap.mem_iff_exists_lookup.mpr ⟨peer, hpeer⟩
      simp only [ownHandshake, Locked.completeHandshake, hmem, if_true]
      simp only [Locked.withPeer, hpeer]
      have hfits : FitsBuffer texts id := ⟨hbytes, by rw [← hall]; exact hlength⟩
      refine ⟨peer.greet id 1 [1, 2, 3, 4, 5, 6, 7], ?_,
        .inr ⟨rfl, rfl, fitsBuffer_iff.mp hfits⟩⟩
      refine (congrArg (AList.lookup address) (increment_peers (·.connectedPeerCount)
        (fun stats n => { stats with connectedPeerCount := n }) { s with
          peers := s.peers.insert address (peer.greet id 1 [1, 2, 3, 4, 5, 6, 7]) })).trans ?_
      exact AList.lookup_insert _
  · exact ⟨_, lookup_withPeer hpeer _, .inl (h.failPeer _)⟩

theorem ConnectStepRule.unknown_peer {checks : OverflowChecks} {own : Bytes} {phase : ConnectPhase}
    {io : ConnectStepIo}
    {step : TaskStep ConnectPhase (Except CoreError Unit) (NetworkState Address)}
    (hrule : ConnectStepRule checks texts own address s phase io step)
    (hpeer : s.peers.lookup address = some peer) (h : peer.Unknown)
    (hread : ∀ bytes, io = .answered (.data bytes) →
      bytes <+: ownFrame texts id ∧ bytes.length ≤ 4096) :
    ∃ peer', step.state.peers.lookup address = some peer' ∧ (peer'.Unknown ∨
      peer'.IsValidator id ∧ peer'.state = .connected ∧ step.task = none ∧
        id.length ≤ 4061) := by
  cases hrule with
  | unknown | unencoded | connect | write => exact ⟨peer, hpeer, .inl h⟩
  | begin peer' known =>
      exact ⟨_, AList.lookup_insert _, .inl ⟨by
        obtain rfl := Option.some.inj (hpeer.symm.trans known)
        exact h.identity, by simp⟩⟩
  | unconnected outcome e error =>
      rw [TaskStep.state_finish]
      exact ⟨_, lookup_failConnection hpeer checks error, .inl (h.failPeer error)⟩
  | unwritten text e error =>
      rw [TaskStep.state_finish]
      exact ⟨_, lookup_withPeer hpeer _, .inl (h.failPeer error)⟩
  | answer response =>
      rw [TaskStep.state_finish]
      have hanswer : ∀ bytes, response = .data bytes →
          bytes <+: ownFrame texts id ∧ bytes.length ≤ 4096 := by
        rintro bytes rfl
        exact hread bytes rfl
      obtain ⟨peer', hlookup, hpeer'⟩ := takeResponse_unknown hpeer h hanswer
      refine ⟨peer', hlookup, hpeer'.imp_right fun ⟨hvalidator, hstate, hfits⟩ => ?_⟩
      refine ⟨hvalidator, hstate, ?_, hfits⟩
      cases Locked.takeResponse checks texts address response s with
      | ok | error => rfl

/-- A listener that has not read the handshake yet. -/
theorem ListenStepRule.unknown_peer {phase : ConnectionPhase} {io : ListenIo}
    {step : TaskStep ConnectionPhase (Except CoreError Unit) (NetworkState Address)}
    (hrule : ListenStepRule texts address s phase io step) (hphase : phase ≠ .receiving)
    (hpeer : s.peers.lookup address = some peer) (h : peer.Unknown)
    (hread : ∀ bytes now, phase = .greeted → io = .read (.data bytes) now →
      bytes <+: ownFrame texts id ∧ bytes.length ≤ 4096) :
    ∃ peer', step.state.peers.lookup address = some peer' ∧
      (peer'.Unknown ∧ step.task ≠ some .receiving ∨
        peer'.IsValidator id ∧ peer'.state = .connected ∧ step.task = some .receiving ∧
          id.length ≤ 4061) := by
  cases hrule with
  | wrote => exact ⟨peer, hpeer, .inl ⟨h, by simp [TaskStep.task]⟩⟩
  | refuse => exact ⟨peer, hpeer, .inl ⟨h, by simp [TaskStep.task]⟩⟩
  | receive | hangUp => exact absurd rfl hphase
  | accept bytes now message s' reads accepts =>
      obtain ⟨hfront, hlength⟩ := hread bytes now rfl rfl
      obtain ⟨rfl, hall, hbytes⟩ := read_ownFrame hfront reads
      simp only [acceptHandshake, ownHandshake, NetworkState.withPeer, hpeer, Option.map_some,
        Option.some.injEq] at accepts
      obtain rfl := accepts
      have hfits : FitsBuffer texts id := ⟨hbytes, by rw [← hall]; exact hlength⟩
      exact ⟨_, AList.lookup_insert _, .inr ⟨rfl, rfl, rfl, fitsBuffer_iff.mp hfits⟩⟩

/-- A listener in its message loop hears no more than the end. -/
theorem ListenStepRule.connected_peer {io : ListenIo}
    {step : TaskStep ConnectionPhase (Except CoreError Unit) (NetworkState Address)}
    (hrule : ListenStepRule texts address s .receiving io step)
    (hpeer : s.peers.lookup address = some peer) (h : peer.IsValidator id)
    (hquiet : ∀ bytes now, io = .read (.data bytes) now → bytes = []) :
    ∃ peer', step.state.peers.lookup address = some peer' ∧ peer'.IsValidator id ∧
      peer'.state = .disconnected ∧ step.task = none := by
  cases hrule with
  | refuse _ _ _ early => simp at early
  | receive bytes now nonempty => exact absurd (hquiet bytes now rfl) nonempty
  | hangUp outcome now s' hangs =>
      simp only [ValidatorSync.hangUp, NetworkState.withPeer, hpeer, Option.map_some, Option.some.injEq] at hangs
      obtain rfl := hangs
      exact ⟨_, AList.lookup_insert _, h, rfl, rfl⟩

/-- A listener touches the entry for its connection only, if there is one. -/
theorem withPeer_frame {body : PeerInfo Address → Option (PeerInfo Address)}
    {s' : NetworkState Address} (h : s.withPeer address body = some s') :
    Frame address s s' ∧
      (s.peers.lookup address = none → s'.peers.lookup address = none) := by
  cases hpeer : s.peers.lookup address with
  | none =>
      rw [NetworkState.withPeer, hpeer] at h
      obtain rfl := Option.some.inj h
      exact ⟨fun _ _ => rfl, fun _ => hpeer⟩
  | some peer =>
      refine ⟨(withPeer_eq_some hpeer h).1, ?_⟩
      intro hnone
      cases hnone

theorem ListenStepRule.frame {phase : ConnectionPhase} {io : ListenIo}
    {step : TaskStep ConnectionPhase (Except CoreError Unit) (NetworkState Address)}
    (hrule : ListenStepRule texts address s phase io step)
    (hquiet : ∀ bytes now, phase = .receiving → io = .read (.data bytes) now → bytes = []) :
    Frame address s step.state ∧
      (s.peers.lookup address = none → step.state.peers.lookup address = none) := by
  cases hrule with
  | wrote | refuse => exact ⟨fun _ _ => rfl, fun hnone => hnone⟩
  | receive bytes now nonempty => exact absurd (hquiet bytes now rfl rfl) nonempty
  | hangUp outcome now s' hangs => exact withPeer_frame hangs
  | accept bytes now message s' reads accepts =>
      unfold acceptHandshake at accepts
      split at accepts
      · exact withPeer_frame accepts
      · obtain rfl := Option.some.inj accepts
        exact ⟨fun _ _ => rfl, fun hnone => hnone⟩

/-! ## Both sides -/

/-- The connector is connected once it has dropped the socket. -/
structure ConnectorOutcome (P : HandshakeParties Address) (x : Handshake Address) : Prop where
  entry : ∃ peer, x.connectorState.peers.lookup P.listener = some peer ∧ (peer.Unknown ∨
    peer.IsValidator P.listenerId ∧ peer.state = .connected ∧ x.connector = none ∧
      P.listenerId.length ≤ 4061)
  closed : x.toListener.closed = x.connector.isNone

/-- The listener is connected as long as it receives. -/
def ListenerOutcome (P : HandshakeParties Address) (x : Handshake Address) : Prop :=
  ∃ peer, x.listenerState.peers.lookup P.peerAddr = some peer ∧
    (peer.Unknown ∧ x.listener ≠ some .receiving ∨
      peer.IsValidator P.connectorId ∧ P.connectorId.length ≤ 4061 ∧
        x.connector ≠ some .begun ∧ x.connector ≠ some .connecting ∧
        (peer.state = .connected ∧ x.listener = some .receiving ∨
          peer.state = .disconnected ∧ x.listener = none))

/-- Of what the listener knew at the start, only the entry for the address of the connection may
change, and a listener that has not added that address does not get to know it. -/
structure ListenerFrame (P : HandshakeParties Address) (start : NetworkState Address)
    (x : Handshake Address) : Prop where
  others : Frame P.peerAddr start x.listenerState
  unlisted : start.peers.lookup P.peerAddr = none → x.listenerState.peers.lookup P.peerAddr = none

structure HandshakeOutcome (P : HandshakeParties Address) (start : NetworkState Address)
    (x : Handshake Address) : Prop where
  connector : ConnectorOutcome P x
  frame : ListenerFrame P start x
  listener : (∃ peer, start.peers.lookup P.peerAddr = some peer) → ListenerOutcome P x

theorem ConnectorOutcome.step (h : ConnectorOutcome P x) (hside : SideStep P x y) :
    ConnectorOutcome P y := by
  obtain ⟨peer, hpeer, hknown⟩ := h.entry
  cases hside with
  | wire same =>
      obtain ⟨hconnector, hconnectorState, _, _, hclosed⟩ := same
      refine ⟨?_, ?_⟩
      · rw [hconnectorState, hconnector]
        exact h.entry
      · rw [hclosed, hconnector]
        exact h.closed
  | connector phase io step running rule after closes others reads =>
      obtain ⟨hconnector, hconnectorState⟩ := after
      have hunknown : peer.Unknown := by
        rcases hknown with hunknown | ⟨_, _, hended, _⟩
        · exact hunknown
        · cases running.symm.trans hended
      refine ⟨?_, ?_⟩
      · rw [hconnectorState, hconnector]
        exact rule.unknown_peer hpeer hunknown reads
      · rw [closes, hconnector]
  | listener phase io step running rule after others reads quiet =>
      obtain ⟨hconnectorState, hconnector, hclosed⟩ := others
      refine ⟨?_, ?_⟩
      · rw [hconnectorState, hconnector]
        exact h.entry
      · rw [hclosed, hconnector]
        exact h.closed

theorem ListenerFrame.step {start : NetworkState Address} (h : ListenerFrame P start x)
    (hside : SideStep P x y) : ListenerFrame P start y := by
  have hsame (heq : y.listenerState = x.listenerState) : ListenerFrame P start y :=
    ⟨heq ▸ h.others, heq ▸ h.unlisted⟩
  cases hside with
  | wire same => exact hsame same.2.2.2.1
  | connector phase io step running rule after closes others reads => exact hsame others.1
  | listener phase io step running rule after others reads quiet =>
      obtain ⟨hothers, hunlisted⟩ := rule.frame quiet
      refine ⟨?_, ?_⟩
      · intro address hne
        rw [after.2, hothers address hne]
        exact h.others address hne
      · intro hnone
        rw [after.2]
        exact hunlisted (h.unlisted hnone)

theorem ListenerOutcome.step (h : ListenerOutcome P x) (hinvariant : HandshakeInvariant P x)
    (hside : SideStep P x y) : ListenerOutcome P y := by
  obtain ⟨peer, hpeer, hknown⟩ := h
  cases hside with
  | wire same =>
      obtain ⟨hconnector, _, hlistener, hlistenerState, _⟩ := same
      rw [ListenerOutcome, hlistenerState, hlistener, hconnector]
      exact ⟨peer, hpeer, hknown⟩
  | connector phase io step running rule after closes others reads =>
      obtain ⟨hconnector, _⟩ := after
      obtain ⟨hlistenerState, hlistener⟩ := others
      rw [ListenerOutcome, hlistenerState]
      refine ⟨peer, hpeer, ?_⟩
      rcases hknown with ⟨hunknown, hwaits⟩ | ⟨hvalidator, hfits, hbegun, hconnecting, hstate⟩
      · refine .inl ⟨hunknown, ?_⟩
        rcases hlistener with hsame | ⟨_, hnone | hgreeting⟩
        · rw [hsame]
          exact hwaits
        · simp [hnone]
        · simp [hgreeting]
      · refine .inr ⟨hvalidator, hfits, ?_, ?_, ?_⟩
        · rw [hconnector]
          intro htask
          rcases rule.task htask with ⟨_, heq⟩ | ⟨_, heq⟩ | ⟨_, heq⟩ <;> cases heq
        · rw [hconnector]
          intro htask
          rcases rule.task htask with ⟨rfl, _⟩ | ⟨_, heq⟩ | ⟨_, heq⟩
          · exact hbegun running
          · cases heq
          · cases heq
        · rcases hlistener with hsame | ⟨rfl, _⟩
          · rw [hsame]
            exact hstate
          · exact absurd running hconnecting
  | listener phase io step running rule after others reads quiet =>
      obtain ⟨hlistener, hlistenerState⟩ := after
      obtain ⟨_, hconnector, _⟩ := others
      rw [ListenerOutcome, hlistenerState, hlistener, hconnector]
      rcases hknown with ⟨hunknown, hwaits⟩ | ⟨hvalidator, hfits, hbegun, hconnecting, hstate⟩
      · have hphase : phase ≠ .receiving := by
          rintro rfl
          exact hwaits running
        have hmade : ∀ waits, waits = ConnectPhase.begun ∨ waits = .connecting →
            x.connector ≠ some waits := by
          rintro waits hcases hconnector'
          have hidle := (hinvariant.unaccepted (by rcases hcases with rfl | rfl <;>
            simp [hconnector'])).1
          cases running.symm.trans hidle
        obtain ⟨peer₁, hpeer₁, hknown₁⟩ := rule.unknown_peer hphase hpeer hunknown reads
        refine ⟨peer₁, hpeer₁, hknown₁.imp_right fun ⟨hvalidator, hstate, htask, hfits⟩ => ?_⟩
        exact ⟨hvalidator, hfits, hmade _ (.inl rfl), hmade _ (.inr rfl), .inl ⟨hstate, htask⟩⟩
      · rcases hstate with ⟨_, hreceiving⟩ | ⟨_, hnone⟩
        · obtain rfl := Option.some.inj (running.symm.trans hreceiving)
          obtain ⟨peer₁, hpeer₁, hvalidator₁, hstate₁, htask₁⟩ :=
            rule.connected_peer hpeer hvalidator fun bytes now => quiet bytes now rfl
          exact ⟨peer₁, hpeer₁, .inr ⟨hvalidator₁, hfits, hbegun, hconnecting,
            .inr ⟨hstate₁, htask₁⟩⟩⟩
        · cases running.symm.trans hnone

variable {calls : List (HandshakeCall Address)} {connectorState listenerState : NetworkState Address}

theorem HandshakeOutcome.step {start : NetworkState Address} (h : HandshakeOutcome P start x)
    (hinvariant : HandshakeInvariant P x) (hside : SideStep P x y) : HandshakeOutcome P start y :=
  ⟨h.connector.step hside, h.frame.step hside,
    fun hlisted => (h.listener hlisted).step hinvariant hside⟩

/-- In every run of the two sides, from managers that know nothing of each other: a side is
connected as the validator that the other is, if the other's identity has up to 4061 bytes, and
remains unknown otherwise. The connector is connected only once it has ended and closed the
connection. The listener is so exactly as long as its message loop runs, under the address that
`accept` has given it, and not at all if it has not added that address. -/
theorem handshake_outcome (hlistener : ∃ peer,
      connectorState.peers.lookup P.listener = some peer ∧ peer.Unknown)
    (hpeers : ∀ peer, listenerState.peers.lookup P.peerAddr = some peer → peer.Unknown)
    (h : (handshakeMachine P).Run (.start connectorState listenerState) calls x)
    (hown : ∀ c ∈ calls, c.event.isOwn) : HandshakeOutcome P listenerState x := by
  obtain ⟨peer, hpeer, hunknown⟩ := hlistener
  have hstart : HandshakeOutcome P listenerState (.start connectorState listenerState) := by
    refine ⟨⟨⟨peer, hpeer, .inl hunknown⟩, rfl⟩, ⟨fun _ _ => rfl, fun hnone => hnone⟩, ?_⟩
    rintro ⟨peer', hpeer'⟩
    exact ⟨peer', hpeer', .inl ⟨hpeers peer' hpeer', by simp [Handshake.start]⟩⟩
  have hboth : HandshakeInvariant P x ∧ HandshakeOutcome P listenerState x := by
    refine h.invariant_of_mem (I := fun x => HandshakeInvariant P x ∧
      HandshakeOutcome P listenerState x) ⟨.start P connectorState listenerState, hstart⟩ ?_
    rintro c hc hmakes ⟨hinvariant, houtcome⟩
    obtain ⟨hpost, hside⟩ := hinvariant.step hmakes
    exact ⟨hpost, houtcome.step hinvariant (hside (hown c hc))⟩
  exact hboth.2

/-- The connection is made, and both handshakes are on the wire. -/
theorem run_written {frame frame' : Bytes} (listenerState : NetworkState Address)
    (hpeer : connectorState.peers.lookup P.listener = some peer)
    (hbytes : (ownHandshake P.listenerId).toBytes P.texts = .ok frame)
    (hbytes' : (ownHandshake P.connectorId).toBytes P.texts = .ok frame') :
    ∃ calls, (handshakeMachine P).Run (.start connectorState listenerState) calls
        ⟨some .reading, { connectorState with
            peers := connectorState.peers.insert P.listener { peer with state := .connecting } },
          some .greeted, listenerState, ⟨frame', 0, false⟩, ⟨frame, 0, false⟩⟩ ∧
      ∀ c ∈ calls, c.event.isOwn := by
  let s₁ : NetworkState Address := { connectorState with
    peers := connectorState.peers.insert P.listener { peer with state := .connecting } }
  have hlocked : (handshakeMachine P).step (.start connectorState listenerState)
      .connectorLocked =
        some (.running, ⟨some .connecting, s₁, none, listenerState, .empty, .empty⟩) := by
    simp [handshakeMachine, Handshake.step, Handshake.connectorStep, Handshake.start, connectStep,
      hpeer, TaskStep.progress, TaskStep.task, TaskStep.state, Pipe.close, Pipe.empty, s₁]
  have hconnected : (handshakeMachine P).step
      ⟨some .connecting, s₁, none, listenerState, .empty, .empty⟩ (.connected .ok true) =
        some (.running,
          ⟨some .writing, s₁, some .greeting, listenerState, .empty, .empty⟩) := by
    simp [handshakeMachine, Handshake.step, Handshake.connectorStep, connectStep, hbytes',
      TaskStep.progress, TaskStep.task, TaskStep.state, Pipe.close, Pipe.empty, Handshake.accept,
      openConnection, hbytes, ConnectionPhase.onward]
  have hgreeting : (handshakeMachine P).step
      ⟨some .writing, s₁, some .greeting, listenerState, .empty, .empty⟩
        (.listenerWrote (.ok ())) = some (.running,
          ⟨some .writing, s₁, some .greeted, listenerState, .empty, ⟨frame, 0, false⟩⟩) := by
    simp [handshakeMachine, Handshake.step, Handshake.listenerStep, Handshake.listenerFlush,
      listenStep, listen, ownFrame_of_ok hbytes, TaskStep.progress, TaskStep.task,
      TaskStep.state, Pipe.close, Pipe.empty, Pipe.flush, ConnectionPhase.onward]
  have hwriting : (handshakeMachine P).step
      ⟨some .writing, s₁, some .greeted, listenerState, .empty, ⟨frame, 0, false⟩⟩
        (.connectorWrote (.ok ())) = some (.running,
          ⟨some .reading, s₁, some .greeted, listenerState, ⟨frame', 0, false⟩,
            ⟨frame, 0, false⟩⟩) := by
    simp [handshakeMachine, Handshake.step, Handshake.connectorStep, Handshake.connectorFlush,
      connectStep, ownFrame_of_ok hbytes', TaskStep.progress, TaskStep.task, TaskStep.state,
      Pipe.close, Pipe.empty, Pipe.flush]
  exact ⟨_, Machine.Run.start.of_step hlocked |>.of_step hconnected |>.of_step hgreeting
    |>.of_step hwriting, by simp [HandshakeEvent.isOwn]⟩

theorem unknown_knowing {known : Address} {now : Instant}
    (hpeer : (NetworkState.knowing known now).peers.lookup address = some peer) : peer.Unknown := by
  simp only [NetworkState.knowing, HashMap.lookup_insert_eq, AList.lookup_empty] at hpeer
  split at hpeer
  · obtain rfl := Option.some.inj hpeer
    exact ⟨rfl, by simp [PeerInfo.new]⟩
  · cases hpeer

/-- A run in which the connector has what it wants, and the listener has not read anything yet. -/
theorem handshake_outcome_plain :
    ∃ calls x, (handshakeMachine .plain).Run (.start (.knowing 2 0) (.knowing 1 0)) calls x ∧
      x.connectorState.peers.lookup 2 =
        some ((PeerInfo.new 2 0).greet [8, 9] 1 [1, 2, 3, 4, 5, 6, 7]) ∧
      HandshakeOutcome .plain (.knowing 1 0) x := by
  have hrun := Machine.Run.start.of_step (M := handshakeMachine .plain)
    (s := .start (.knowing 2 0) (.knowing 1 0)) (e := .connectorLocked) rfl
      |>.of_step (e := .connected .ok true) rfl
      |>.of_step (e := .listenerWrote (.ok ())) rfl
      |>.of_step (e := .connectorWrote (.ok ())) rfl
      |>.of_step (e := .connectorReads (.bytes 37)) rfl
  have hlistener : (NetworkState.knowing 2 0).peers.lookup 2 = some (PeerInfo.new 2 0) := rfl
  exact ⟨_, _, hrun, rfl, handshake_outcome ⟨_, hlistener, unknown_knowing hlistener⟩
    (fun _ => unknown_knowing) hrun (by simp [HandshakeEvent.isOwn])⟩

/-! ## Completing a handshake -/

omit [DecidableEq Address] in
theorem fromBytes_ownHandshake (hbytes : (ownHandshake id).toBytes texts = .ok f)
    (hlength : f.length ≤ 4096) : NetworkMessage.fromBytes texts f = .ok (ownHandshake id) := by
  have hread := NetworkMessage.fromBytes_append hbytes (by omega) []
  rwa [List.append_nil] at hread

/-- An answer that is all of a handshake. -/
theorem takeResponse_greets (checks : OverflowChecks)
    (hpeer : s.peers.lookup address = some peer)
    (hread : NetworkMessage.fromBytes texts f = .ok (ownHandshake id)) :
    (Update.left (Locked.takeResponse checks texts address (.data f) s)).peers.lookup address =
      some (peer.greet id 1 [1, 2, 3, 4, 5, 6, 7]) := by
  have hmem : address ∈ s.peers := HashMap.mem_iff_exists_lookup.mpr ⟨peer, hpeer⟩
  cases f with
  | nil => cases hread
  | cons b rest =>
      simp only [Locked.takeResponse, hread, ownHandshake, Locked.completeHandshake, hmem, if_true,
        Locked.withPeer, hpeer]
      refine (congrArg (AList.lookup address) (increment_peers (·.connectedPeerCount)
        (fun stats n => { stats with connectedPeerCount := n }) { s with
          peers := s.peers.insert address (peer.greet id 1 [1, 2, 3, 4, 5, 6, 7]) })).trans ?_
      exact AList.lookup_insert _

/-- The connector reads all of the listener's handshake, and hangs up. -/
theorem step_connectorReads (listener : Option ConnectionPhase)
    (listenerState : NetworkState Address) (pipe : Pipe UInt8)
    (hpeer : connectorState.peers.lookup P.listener = some peer)
    (hbytes : (ownHandshake P.listenerId).toBytes P.texts = .ok f) (hlength : f.length ≤ 4096) :
    ∃ r s', (handshakeMachine P).step
        ⟨some .reading, connectorState, listener, listenerState, pipe, ⟨f, 0, false⟩⟩
        (.connectorReads (.bytes f.length)) = some (r,
          ⟨none, s', listener, listenerState, pipe.close true, ⟨f, f.length, false⟩⟩) ∧
      s'.peers.lookup P.listener = some (peer.greet P.listenerId 1 [1, 2, 3, 4, 5, 6, 7]) := by
  have hread := fromBytes_ownHandshake hbytes hlength
  have hnonempty : f ≠ [] := by
    rintro rfl
    cases hread
  have hall := Pipe.read_written hnonempty hlength false
  have hgreets := takeResponse_greets P.checks hpeer hread
  cases hleft : Locked.takeResponse P.checks P.texts P.listener (.data f) connectorState with
  | ok s' =>
      rw [hleft] at hgreets
      refine ⟨.returned (.ok ()), s', ?_, hgreets⟩
      simp [handshakeMachine, Handshake.step, Handshake.connectorStep, ReadAttempt.take, hall,
        connectStep, hleft, TaskStep.finish, TaskStep.progress, TaskStep.task, TaskStep.state]
  | error s' =>
      rw [hleft] at hgreets
      refine ⟨.panicked, s', ?_, hgreets⟩
      simp [handshakeMachine, Handshake.step, Handshake.connectorStep, ReadAttempt.take, hall,
        connectStep, hleft, TaskStep.finish, TaskStep.progress, TaskStep.task, TaskStep.state]

/-- The listener reads all of the connector's handshake. -/
theorem step_listenerReads {connector : Option ConnectPhase} {pipe : Pipe UInt8} {closed : Bool}
    (hpeer : listenerState.peers.lookup P.peerAddr = some peer)
    (hbytes : (ownHandshake P.connectorId).toBytes P.texts = .ok f) (hlength : f.length ≤ 4096) :
    (handshakeMachine P).step
        ⟨connector, connectorState, some .greeted, listenerState, ⟨f, 0, closed⟩, pipe⟩
        (.listenerReads (.bytes f.length) 0) = some (.running,
          ⟨connector, connectorState, some .receiving, { listenerState with
            peers := listenerState.peers.insert P.peerAddr
              (peer.greet P.connectorId 1 [1, 2, 3, 4, 5, 6, 7]) },
            ⟨f, f.length, closed⟩, pipe.close false⟩) := by
  have hread := fromBytes_ownHandshake hbytes hlength
  have hnonempty : f ≠ [] := by
    rintro rfl
    cases hread
  have hall := Pipe.read_written hnonempty hlength closed
  obtain ⟨b, rest, rfl⟩ := List.exists_cons_of_ne_nil hnonempty
  have haccept : acceptHandshake P.peerAddr (ownHandshake P.connectorId) listenerState =
      some ⟨listenerState.peers.insert P.peerAddr
        (peer.greet P.connectorId 1 [1, 2, 3, 4, 5, 6, 7]), listenerState.stats⟩ := by
    simp [acceptHandshake, ownHandshake, NetworkState.withPeer, hpeer]
  simp only [List.length_cons] at hall
  simp [handshakeMachine, Handshake.step, Handshake.listenerStep, ReadAttempt.take, hall,
    ConnectionPhase.bufferSize, listenStep, listen, hread, haccept, ConnectionPhase.onward,
    TaskStep.progress, TaskStep.task, TaskStep.state]

/-- The listener comes to the end of what a connector that has hung up has sent. -/
theorem step_listenerEnds {connector : Option ConnectPhase} {pipe : Pipe UInt8}
    (hpeer : listenerState.peers.lookup P.peerAddr = some peer) :
    (handshakeMachine P).step
        ⟨connector, connectorState, some .receiving, listenerState, ⟨f, f.length, true⟩, pipe⟩
        (.listenerReads (.bytes 0) 0) = some (.returned (.ok ()),
          ⟨connector, connectorState, none, { listenerState with
            peers := listenerState.peers.insert P.peerAddr { peer with state := .disconnected } },
            ⟨f, f.length, true⟩, pipe.close true⟩) := by
  have hend : (⟨f, f.length, true⟩ : Pipe UInt8).read (10 * 1024 * 1024) 0 =
      some ([], ⟨f, f.length, true⟩) := Pipe.read_end (by simp [Pipe.pending]) rfl
  have hhangs : hangUp P.peerAddr listenerState = some { listenerState with
      peers := listenerState.peers.insert P.peerAddr { peer with state := .disconnected } } := by
    simp [hangUp, NetworkState.withPeer, hpeer]
  simp [handshakeMachine, Handshake.step, Handshake.listenerStep, ReadAttempt.take, hend,
    ConnectionPhase.bufferSize, listenStep, listen, hhangs, ConnectionPhase.onward,
    TaskStep.progress, TaskStep.task, TaskStep.state]

/-- The run in which the two sides greet each other. The connector, which is the first to have what
it wants, hangs up. -/
theorem run_completes {peer' : PeerInfo Address}
    (hpeer : connectorState.peers.lookup P.listener = some peer)
    (hpeer' : listenerState.peers.lookup P.peerAddr = some peer')
    (hshort : P.listenerId.length ≤ 4061) (hshort' : P.connectorId.length ≤ 4061) :
    ∃ calls x, (handshakeMachine P).Run (.start connectorState listenerState) calls x ∧
      (∀ c ∈ calls, c.event.isOwn) ∧ x.connector = none ∧ x.listener = none ∧
      (∃ peer, x.connectorState.peers.lookup P.listener = some peer ∧
        peer.IsValidator P.listenerId ∧ peer.state = .connected) ∧
      ∃ peer, x.listenerState.peers.lookup P.peerAddr = some peer ∧
        peer.IsValidator P.connectorId ∧ peer.state = .disconnected := by
  have hfits : FitsBuffer P.texts P.listenerId := fitsBuffer_iff.mpr hshort
  have hfits' : FitsBuffer P.texts P.connectorId := fitsBuffer_iff.mpr hshort'
  obtain ⟨hbytes, hlength⟩ := hfits
  obtain ⟨hbytes', hlength'⟩ := hfits'
  obtain ⟨calls, hrun, hown⟩ := run_written listenerState hpeer hbytes hbytes'
  have hconnecting : (⟨connectorState.peers.insert P.listener { peer with state := .connecting },
      connectorState.stats⟩ : NetworkState Address).peers.lookup P.listener =
        some { peer with state := .connecting } := AList.lookup_insert _
  obtain ⟨r, s', hanswered, hgreeted⟩ := step_connectorReads (some .greeted) listenerState
    ⟨ownFrame P.texts P.connectorId, 0, false⟩ hconnecting hbytes hlength
  have hreceiving : (⟨listenerState.peers.insert P.peerAddr
      (peer'.greet P.connectorId 1 [1, 2, 3, 4, 5, 6, 7]), listenerState.stats⟩ :
        NetworkState Address).peers.lookup P.peerAddr =
          some (peer'.greet P.connectorId 1 [1, 2, 3, 4, 5, 6, 7]) := AList.lookup_insert _
  refine ⟨_, _, hrun.of_step hanswered
    |>.of_step (step_listenerReads hpeer' hbytes' hlength')
    |>.of_step (step_listenerEnds hreceiving), ?_, rfl, rfl,
    ⟨_, hgreeted, PeerInfo.isValidator_greet _ _⟩, ⟨_, AList.lookup_insert _, rfl, rfl⟩⟩
  simp only [List.mem_append, List.mem_singleton]
  rintro c (((hc | rfl) | rfl) | rfl)
  · exact hown c hc
  · rfl
  · rfl
  · rfl

/-- Two managers that know nothing of each other can greet each other exactly when the listener has
added the address that `accept` gives it, and neither identity has more than 4061 bytes. Even then
the listener ends disconnected. -/
theorem handshake_completes_iff (hlistener : ∃ peer,
      connectorState.peers.lookup P.listener = some peer ∧ peer.Unknown)
    (hpeers : ∀ address peer, listenerState.peers.lookup address = some peer → peer.Unknown) :
    (∃ calls x, (handshakeMachine P).Run (.start connectorState listenerState) calls x ∧
      (∀ c ∈ calls, c.event.isOwn) ∧ x.connector = none ∧ x.listener = none ∧
      (∃ peer, x.connectorState.peers.lookup P.listener = some peer ∧
        peer.IsValidator P.listenerId ∧ peer.state = .connected) ∧
      ∃ address peer, x.listenerState.peers.lookup address = some peer ∧
        peer.IsValidator P.connectorId ∧ peer.state = .disconnected) ↔
      P.peerAddr ∈ listenerState.peers ∧ P.listenerId.length ≤ 4061 ∧
        P.connectorId.length ≤ 4061 := by
  constructor
  · rintro ⟨calls, x, hrun, hown, _, _, ⟨peer, hpeer, _, hconnected⟩, address, peer', hpeer',
      hvalidator, _⟩
    have houtcome := handshake_outcome hlistener (hpeers P.peerAddr) hrun hown
    have hknows : ¬ peer'.Unknown := by
      intro hunknown
      cases hunknown.identity.symm.trans (congrArg Prod.fst hvalidator)
    -- the listener has recorded the connector under the address of the connection, if anywhere
    have haddress : address = P.peerAddr := by
      by_contra hother
      rw [houtcome.frame.others address hother] at hpeer'
      exact hknows (hpeers address peer' hpeer')
    rw [haddress] at hpeer'
    have hlisted : ∃ peer, listenerState.peers.lookup P.peerAddr = some peer := by
      apply Option.ne_none_iff_exists'.mp
      intro hnone
      cases (houtcome.frame.unlisted hnone).symm.trans hpeer'
    obtain ⟨peer₁, hpeer₁, hknown⟩ := houtcome.connector.entry
    obtain ⟨peer₂, hpeer₂, hknown'⟩ := houtcome.listener hlisted
    obtain rfl := Option.some.inj (hpeer.symm.trans hpeer₁)
    obtain rfl := Option.some.inj (hpeer'.symm.trans hpeer₂)
    refine ⟨HashMap.mem_iff_exists_lookup.mpr hlisted, ?_, ?_⟩
    · rcases hknown with hunknown | ⟨_, _, _, hshort⟩
      · exact absurd hconnected hunknown.state
      · exact hshort
    · rcases hknown' with ⟨hunknown, _⟩ | ⟨_, hshort, _⟩
      · exact absurd hunknown hknows
      · exact hshort
  · rintro ⟨hlisted, hshort, hshort'⟩
    obtain ⟨peer, hpeer, _⟩ := hlistener
    obtain ⟨peer', hpeer'⟩ := HashMap.mem_iff_exists_lookup.mp hlisted
    obtain ⟨calls, x, hrun, hown, hconnector, hlistener, hgreeted, hrecorded⟩ :=
      run_completes hpeer hpeer' hshort hshort'
    exact ⟨calls, x, hrun, hown, hconnector, hlistener, hgreeted, _, hrecorded⟩

/-- A listener that has added the connector under another address than that of the connection never
records it. -/
theorem handshake_completes_iff_plain :
    ((∃ calls x, (handshakeMachine .plain).Run (.start (.knowing 2 0) (.knowing 1 0)) calls x ∧
      (∀ c ∈ calls, c.event.isOwn) ∧ x.connector = none ∧ x.listener = none ∧
      (∃ peer, x.connectorState.peers.lookup 2 = some peer ∧
        peer.IsValidator [8, 9] ∧ peer.state = .connected) ∧
      ∃ address peer, x.listenerState.peers.lookup address = some peer ∧
        peer.IsValidator [7] ∧ peer.state = .disconnected)) ∧
    ¬ ∃ calls x, (handshakeMachine .plain).Run (.start (.knowing 2 0) (.knowing 9 0)) calls x ∧
      (∀ c ∈ calls, c.event.isOwn) ∧ x.connector = none ∧ x.listener = none ∧
      (∃ peer, x.connectorState.peers.lookup 2 = some peer ∧
        peer.IsValidator [8, 9] ∧ peer.state = .connected) ∧
      ∃ address peer, x.listenerState.peers.lookup address = some peer ∧
        peer.IsValidator [7] ∧ peer.state = .disconnected := by
  have hlistener : (NetworkState.knowing 2 0).peers.lookup 2 = some (PeerInfo.new 2 0) := rfl
  have hunknown := unknown_knowing hlistener
  refine ⟨(handshake_completes_iff (P := .plain) ⟨_, hlistener, hunknown⟩
    fun _ _ => unknown_knowing).mpr (by decide), ?_⟩
  intro hcompletes
  have hlisted := ((handshake_completes_iff (P := .plain) ⟨_, hlistener, hunknown⟩
    fun _ _ => unknown_knowing).mp hcompletes).1
  exact absurd hlisted (by decide)

end ValidatorSync

end SilverNetwork
