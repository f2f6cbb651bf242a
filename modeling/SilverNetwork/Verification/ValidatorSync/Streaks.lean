import SilverNetwork.Verification.ValidatorSync.Steps
import SilverNetwork.Verification.ValidatorSync.Tasks

/-! The failures of the peers that are broadcast to. Whatever the other tasks do meanwhile, a step
that connects a peer resets its failures, and a sixth failure in a row takes it out of the broadcasts
that start later. -/

namespace SilverNetwork

namespace ValidatorSync

open Update

variable {Address : Type} {checks : OverflowChecks} {peer : PeerInfo Address}

/-! ## One peer -/

/-- A peer that is connected has failed at most five times in a row. -/
def PeerInfo.FewFailures (peer : PeerInfo Address) : Prop :=
  peer.state = .connected → peer.failedAttempts ≤ 5

theorem PeerInfo.fewFailures_of_state (h : peer.state ≠ .connected) : peer.FewFailures :=
  fun hconnected => absurd hconnected h

theorem PeerInfo.fewFailures_greet (validatorId : Bytes) (version : UInt32) (capabilities : Bytes)
    (peer : PeerInfo Address) : (peer.greet validatorId version capabilities).FewFailures := by
  intro _
  change (0 : UInt32) ≤ 5
  decide

namespace PeerInfo.FewFailures

theorem recordSent (h : peer.FewFailures) (bytes latencyMs : UInt64) (now : Instant) :
    (left (Locked.recordSent checks bytes latencyMs now peer)).FewFailures :=
  left_orPanic_bind h fun _ _ => left_orPanic_bind h fun _ _ => left_orPanic_bind h fun _ _ => h

theorem recordReceived (h : peer.FewFailures) (bytes : UInt64) (now : Instant) :
    (left (Locked.recordReceived checks bytes now peer)).FewFailures := by
  refine left_orPanic_bind h fun _ _ => left_orPanic_bind h fun _ _ => ?_
  intro _
  change (0 : UInt32) ≤ 5
  decide

/-- The sixth failure in a row ends the connection. -/
theorem recordFailure (h : peer.FewFailures) (error : String) :
    (left (Locked.recordFailure checks error peer)).FewFailures := by
  refine left_orPanic_bind h fun failedAttempts _ => ?_
  dsimp only
  by_cases hmany : 5 < failedAttempts
  · rw [if_pos hmany]
    intro hconnected
    cases hconnected
  · rw [if_neg hmany]
    intro _
    exact UInt32.not_lt.mp hmany

end PeerInfo.FewFailures

theorem PeerInfo.fewFailures_failPeer (error : String) (peer : PeerInfo Address) :
    (left (Locked.failPeer checks error peer)).FewFailures :=
  FewFailures.recordFailure (fewFailures_of_state (by simp)) error

/-! ## All peers -/

variable [DecidableEq Address] {texts : Texts Address} {validatorId : Bytes} {maxRetries : ℕ}
  {address : Address} {s s' : NetworkState Address}

def NetworkState.FewFailures (s : NetworkState Address) : Prop :=
  ∀ address peer, s.peers.lookup address = some peer → peer.FewFailures

namespace NetworkState.FewFailures

theorem insert (h : s.FewFailures) (hpeer : peer.FewFailures) (stats : BroadcastStats) :
    FewFailures ⟨s.peers.insert address peer, stats⟩ := by
  intro other peer' hlookup
  rw [HashMap.lookup_insert_eq] at hlookup
  split at hlookup
  · obtain rfl := Option.some.inj hlookup
    exact hpeer
  · exact h other peer' hlookup

theorem withPeer (h : s.FewFailures)
    {body : PeerInfo Address → Update (PeerInfo Address) (PeerInfo Address)}
    (hbody : ∀ peer, peer.FewFailures → (left (body peer)).FewFailures) :
    (left (Locked.withPeer address body s)).FewFailures := by
  unfold Locked.withPeer
  cases hlookup : s.peers.lookup address with
  | none => exact h
  | some peer =>
      simp only [left_within]
      exact h.insert (hbody peer (h address peer hlookup)) s.stats

theorem increment (h : s.FewFailures) (get : BroadcastStats → UInt64)
    (set : BroadcastStats → UInt64 → BroadcastStats) :
    (left (Locked.increment checks get set s)).FewFailures :=
  left_orPanic_bind h fun _ _ => h

theorem failConnection (h : s.FewFailures) (error : String) :
    (left (Locked.failConnection checks address error s)).FewFailures := by
  unfold Locked.failConnection
  split
  · refine left_bind (h.withPeer fun peer _ => PeerInfo.fewFailures_failPeer error peer) ?_
    intro s hs
    exact hs.increment _ _
  · exact h

theorem completeHandshake (h : s.FewFailures) (message : NetworkMessage) :
    (left (Locked.completeHandshake checks address message s)).FewFailures := by
  cases message with
  | handshake validatorId version capabilities =>
      simp only [Locked.completeHandshake]
      split
      · refine left_bind (h.withPeer fun peer _ => ?_) fun s hs => hs.increment _ _
        exact PeerInfo.fewFailures_greet validatorId version capabilities peer
      · exact h
  | _ => exact h

theorem takeResponse (h : s.FewFailures) (response : ReadOutcome) :
    (left (Locked.takeResponse checks texts address response s)).FewFailures := by
  unfold Locked.takeResponse
  split
  · split
    · exact h
    · exact h.completeHandshake _
  · exact h.withPeer fun peer _ => PeerInfo.fewFailures_failPeer _ peer

theorem countReceived (h : s.FewFailures) (bytes : UInt64) :
    (left (Locked.countReceived checks bytes s)).FewFailures := by
  refine left_bind (h.increment _ _) ?_
  intro s hs
  exact left_orPanic_bind hs fun _ _ => hs

theorem receive (h : s.FewFailures) (bytes : Bytes) (now : Instant) :
    (left (Locked.receive checks texts address bytes now s)).FewFailures := by
  unfold Locked.receive
  split
  · exact h
  · refine left_bind (h.withPeer fun peer hpeer => hpeer.recordReceived _ now) ?_
    intro s hs
    exact hs.countReceived _

/-! ## The steps of each task -/

theorem addPeer (h : s.FewFailures) (readings : LockReadings Address) :
    (ValidatorSync.addPeer checks texts address readings s).state.FewFailures := by
  unfold ValidatorSync.addPeer
  split
  · exact h
  · rw [TaskStep.state_finish]
    have hnew : (PeerInfo.new address (readings.now address)).FewFailures :=
      PeerInfo.fewFailures_of_state (by simp [PeerInfo.new])
    exact (h.insert hnew s.stats).increment _ _

theorem removePeer (h : s.FewFailures) :
    (ValidatorSync.removePeer texts address s).2.FewFailures := by
  unfold ValidatorSync.removePeer
  split
  · intro other peer hlookup
    rw [HashMap.lookup_erase_eq] at hlookup
    split at hlookup
    · cases hlookup
    · exact h other peer hlookup
  · exact h

theorem disconnectPeer (h : s.FewFailures) :
    (ValidatorSync.disconnectPeer texts address s).2.FewFailures := by
  unfold ValidatorSync.disconnectPeer
  split
  · exact h
  · exact h.insert (PeerInfo.fewFailures_of_state (by simp)) _

theorem cleanupStalePeers (h : s.FewFailures) (now : Address → Instant) :
    (ValidatorSync.cleanupStalePeers now s).2.FewFailures := by
  intro other peer hlookup
  rw [ValidatorSync.cleanupStalePeers, HashMap.lookup_retain] at hlookup
  obtain ⟨hlookup, _⟩ := Option.filter_eq_some_iff.mp hlookup
  exact h other peer hlookup

theorem connectStep (h : s.FewFailures) {phase : ConnectPhase} {io : ConnectStepIo}
    {step : TaskStep ConnectPhase (Except CoreError Unit) (NetworkState Address)}
    (hstep : ValidatorSync.connectStep checks texts validatorId address phase io s = some step) :
    step.state.FewFailures := by
  unfold ValidatorSync.connectStep at hstep
  split at hstep
  case h_1 =>
      split at hstep
      · obtain rfl := Option.some.inj hstep
        exact h
      · obtain rfl := Option.some.inj hstep
        exact h.insert (PeerInfo.fewFailures_of_state (by simp)) _
  case h_2 | h_3 =>
      obtain rfl := Option.some.inj hstep
      rw [TaskStep.state_finish]
      exact h.failConnection _
  case h_4 =>
      split at hstep
      · obtain rfl := Option.some.inj hstep
        exact h
      · obtain rfl := Option.some.inj hstep
        exact h
  case h_5 =>
      obtain rfl := Option.some.inj hstep
      rw [TaskStep.state_finish]
      exact h.withPeer fun peer _ => PeerInfo.fewFailures_failPeer _ peer
  case h_6 =>
      obtain rfl := Option.some.inj hstep
      exact h
  case h_7 =>
      obtain rfl := Option.some.inj hstep
      rw [TaskStep.state_finish]
      exact h.takeResponse _
  case h_8 => cases hstep

theorem of_withPeer (h : s.FewFailures) {body : PeerInfo Address → Option (PeerInfo Address)}
    {locked : PeerInfo Address → Update (PeerInfo Address) (PeerInfo Address)}
    (hbody : ∀ peer, (locked peer).toOption = body peer)
    (hlocked : ∀ peer, peer.FewFailures → (left (locked peer)).FewFailures)
    (hs' : s.withPeer address body = some s') : s'.FewFailures := by
  rw [← toOption_withPeer address s hbody] at hs'
  rw [← left_of_toOption hs']
  exact h.withPeer hlocked

/-- An update of a peer that does not panic. -/
theorem of_withPeer_some (h : s.FewFailures) {f : PeerInfo Address → PeerInfo Address}
    (hf : ∀ peer, (f peer).FewFailures)
    (hs' : s.withPeer address (fun peer => some (f peer)) = some s') : s'.FewFailures :=
  h.of_withPeer (fun peer => toOption_pure (f peer)) (fun peer _ => hf peer) hs'

theorem listen (h : s.FewFailures) {phase phase' : ConnectionPhase} {io : ListenIo}
    {found : Option NetworkMessage}
    (hlisten : ValidatorSync.listen checks texts address phase io s = some (phase', found, s')) :
    s'.FewFailures := by
  cases hearRule_of_listen hlisten with
  | greet | fail => exact h
  | accept bytes now message _ reads accepts =>
      cases message with
      | handshake peerId version capabilities =>
          exact h.of_withPeer_some (PeerInfo.fewFailures_greet peerId version capabilities) accepts
      | _ =>
          obtain rfl := Option.some.inj accepts
          exact h
  | receive bytes now found _ nonempty receives =>
      have hlocked : (Locked.receive checks texts address bytes now s).toOption = some s' := by
        rw [toOption_receive, receives, Option.map_some]
      rw [← left_of_toOption hlocked]
      exact h.receive bytes now
  | hangUp outcome now _ hangs =>
      exact h.of_withPeer_some (fun peer => PeerInfo.fewFailures_of_state (by simp)) hangs

theorem send (h : s.FewFailures) {message : NetworkMessage} {phase phase' : SendPhase} {io : SendIo}
    (hsend : ValidatorSync.send checks texts address message maxRetries phase io s =
      some (phase', s')) : s'.FewFailures := by
  cases attemptRule_of_send hsend with
  | start | connect | refuse | unconnected | unwritten => exact h
  | giveUp number lastError _ ended records =>
      exact h.of_withPeer (toOption_recordFailure checks _)
        (fun peer hpeer => hpeer.recordFailure _) records
  | succeed number frame latencyMs now _ records =>
      simp only [ValidatorSync.recordSuccess, Option.bind_eq_bind, Option.bind_eq_some_iff,
        Option.some.injEq, Prod.mk.injEq] at records
      obtain ⟨s₁, hrecord, n, _, _, rfl⟩ := records
      have hs₁ : s₁.FewFailures := h.of_withPeer (toOption_recordSent checks _ latencyMs now)
        (fun peer hpeer => hpeer.recordSent _ latencyMs now) hrecord
      exact hs₁

theorem listenStep (h : s.FewFailures) {phase : ConnectionPhase} {io : ListenIo}
    {step : TaskStep ConnectionPhase (Except CoreError Unit) (NetworkState Address)}
    (hstep : ValidatorSync.listenStep checks texts address phase io s = some step) :
    step.state.FewFailures := by
  unfold ValidatorSync.listenStep at hstep
  split at hstep
  · obtain rfl := Option.some.inj hstep
    rw [TaskStep.state_proceed]
    exact h.receive _ _
  · obtain ⟨⟨phase', found, s'⟩, hlisten, rfl⟩ := Option.map_eq_some_iff.mp hstep
    have hs' := h.listen hlisten
    cases phase' <;> exact hs'

theorem receiveStep (h : s.FewFailures) (bytes : Bytes) (now : Instant) :
    (ValidatorSync.receiveStep checks texts address bytes now s).state.FewFailures := by
  unfold ValidatorSync.receiveStep
  split
  · exact h
  · rw [TaskStep.state_proceed]
    exact h.withPeer fun peer hpeer => hpeer.recordReceived _ now

theorem listeningStep (h : s.FewFailures) {phase : ConnectionPhase} {io : ListenIo}
    {step : TaskStep (NetworkTask Address) NetworkAnswer (NetworkState Address)}
    (hstep : ValidatorSync.listeningStep checks texts address phase io s = some step) :
    step.state.FewFailures := by
  unfold ValidatorSync.listeningStep at hstep
  split at hstep
  · obtain rfl := Option.some.inj hstep
    exact h.receiveStep _ _
  · obtain ⟨step, hlisten, rfl⟩ := Option.map_eq_some_iff.mp hstep
    rw [TaskStep.state_map]
    exact h.listenStep hlisten

theorem of_proceed {stage : SendStage} {stage' : Option SendStage}
    {u : Update (NetworkState Address) (NetworkState Address)} (h : (left u).FewFailures)
    (hstep : some (stage.proceed u) = some (stage', s')) : s'.FewFailures := by
  cases u with
  | ok t | error t =>
      obtain ⟨_, rfl⟩ := Prod.mk.inj (Option.some.inj hstep)
      exact h

theorem sendStep (h : s.FewFailures) {message : NetworkMessage} {stage : SendStage} {io : SendIo}
    {stage' : Option SendStage}
    (hstep : ValidatorSync.sendStep checks texts address message maxRetries stage io s =
      some (stage', s')) : s'.FewFailures := by
  unfold ValidatorSync.sendStep at hstep
  split at hstep
  case h_1 number frame latencyMs now =>
      exact of_proceed (h.withPeer fun peer hpeer => hpeer.recordSent _ latencyMs now) hstep
  case h_2 => exact of_proceed (h.increment _ _) hstep
  case h_3 =>
      split at hstep
      · split at hstep
        · rename_i hsend
          obtain ⟨_, rfl⟩ := Prod.mk.inj (Option.some.inj hstep)
          exact h.send hsend
        · obtain ⟨_, rfl⟩ := Prod.mk.inj (Option.some.inj hstep)
          exact h
      · cases hstep
  case h_4 => cases hstep

theorem nextReconnect (h : s.FewFailures) (rest : List Address) (reconnected : ℕ) :
    (ValidatorSync.nextReconnect rest reconnected s).state.FewFailures := by
  cases rest <;> exact h

theorem startBroadcast (h : s.FewFailures) (message : NetworkMessage)
    (readings : LockReadings Address) :
    (ValidatorSync.startBroadcast message readings s).state.FewFailures := by
  unfold ValidatorSync.startBroadcast
  split <;> exact h

theorem concludeBroadcast (h : s.FewFailures) (sends : List (SendTask Address))
    (durationMs : UInt64) :
    (ValidatorSync.concludeBroadcast checks sends durationMs s).state.FewFailures := by
  unfold ValidatorSync.concludeBroadcast
  split
  · exact h
  · rw [TaskStep.state_finish, left_within]
    exact h

theorem beginStep (h : s.FewFailures) {op : NetworkOp Address} {readings : LockReadings Address}
    {step : TaskStep (NetworkTask Address) NetworkAnswer (NetworkState Address)}
    (hstep : ValidatorSync.beginStep checks texts validatorId op readings s = some step) :
    step.state.FewFailures := by
  cases op with
  | addPeer address =>
      obtain rfl := Option.some.inj hstep
      exact h.addPeer readings
  | removePeer address =>
      obtain rfl := Option.some.inj hstep
      exact h.removePeer
  | connectPeer address =>
      obtain ⟨step, hconnect, rfl⟩ := Option.map_eq_some_iff.mp hstep
      rw [TaskStep.state_map]
      exact h.connectStep hconnect
  | disconnectPeer address =>
      obtain rfl := Option.some.inj hstep
      exact h.disconnectPeer
  | handlePeerConnection address =>
      simp only [ValidatorSync.beginStep] at hstep
      split at hstep <;> (obtain rfl := Option.some.inj hstep; exact h)
  | cleanupStalePeers =>
      obtain rfl := Option.some.inj hstep
      exact h.cleanupStalePeers readings.now
  | reconnectFailedPeers =>
      obtain rfl := Option.some.inj hstep
      exact h.nextReconnect _ _
  | broadcastMessage message =>
      obtain rfl := Option.some.inj hstep
      exact h.startBroadcast message readings

theorem reconnectStep (h : s.FewFailures) {phase : ConnectPhase} {rest : List Address}
    {reconnected : ℕ} {io : ConnectStepIo}
    {step : TaskStep (NetworkTask Address) NetworkAnswer (NetworkState Address)}
    (hstep : ValidatorSync.reconnectStep checks texts validatorId address phase rest reconnected io
      s = some step) : step.state.FewFailures := by
  obtain ⟨step, hconnect, rfl⟩ := Option.map_eq_some_iff.mp hstep
  have hs' := h.connectStep hconnect
  split
  · exact hs'
  · exact nextReconnect hs' _ _
  · exact nextReconnect hs' _ _
  · exact hs'

theorem broadcastSend (h : s.FewFailures) {message : NetworkMessage}
    {sends : List (SendTask Address)} {index : ℕ} {io : SendIo}
    {step : TaskStep (NetworkTask Address) NetworkAnswer (NetworkState Address)}
    (hstep : ValidatorSync.broadcastSend checks texts maxRetries message sends index io s =
      some step) : step.state.FewFailures := by
  simp only [ValidatorSync.broadcastSend, Option.bind_eq_bind, Option.bind_eq_some_iff,
    Option.some.injEq, Prod.exists] at hstep
  obtain ⟨task, _, stage, _, stage', s', hsend, rfl⟩ := hstep
  exact h.sendStep hsend

/-- No step of any task connects a peer that has failed too often. -/
theorem networkStep (h : s.FewFailures) {task : NetworkTask Address} {io : NetworkIo Address}
    {step : TaskStep (NetworkTask Address) NetworkAnswer (NetworkState Address)}
    (hstep : ValidatorSync.networkStep checks texts validatorId maxRetries task io s = some step) :
    step.state.FewFailures := by
  unfold ValidatorSync.networkStep at hstep
  split at hstep
  case h_1 op readings => exact h.beginStep hstep
  case h_2 address phase io =>
      obtain ⟨step, hconnect, rfl⟩ := Option.map_eq_some_iff.mp hstep
      rw [TaskStep.state_map]
      exact h.connectStep hconnect
  case h_3 address phase rest reconnected io => exact h.reconnectStep hstep
  case h_4 address phase io => exact h.listeningStep hstep
  case h_5 address length readings =>
      obtain rfl := Option.some.inj hstep
      rw [TaskStep.state_proceed]
      exact h.countReceived _
  case h_6 message sends index io => exact h.broadcastSend hstep
  case h_7 sends readings =>
      split at hstep
      · obtain rfl := Option.some.inj hstep
        exact h.concludeBroadcast sends readings.durationMs
      · cases hstep
  case h_8 => cases hstep

end NetworkState.FewFailures

end ValidatorSync

end SilverNetwork
