import SilverNetwork.Model.ValidatorTasks

/-! The tasks of the network and its sequential operations. What is written under a lock is what the
operations write, where nothing panics, and a task that nobody interrupts does what the operation
does. -/

namespace SilverNetwork

namespace ValidatorSync

open Update

variable {Address : Type} (checks : OverflowChecks) (texts : Texts Address)

/-! ## Under a lock -/

theorem toOption_recordSent (bytes latencyMs : UInt64) (now : Instant) (peer : PeerInfo Address) :
    (Locked.recordSent checks bytes latencyMs now peer).toOption =
      peer.recordSent checks bytes latencyMs now := by
  simp only [Locked.recordSent, toOption_bind, toOption_orPanic, toOption_pure]
  rfl

theorem toOption_recordReceived (bytes : UInt64) (now : Instant) (peer : PeerInfo Address) :
    (Locked.recordReceived checks bytes now peer).toOption =
      peer.recordReceived checks bytes now := by
  simp only [Locked.recordReceived, toOption_bind, toOption_orPanic, toOption_pure]
  rfl

theorem toOption_recordFailure (error : String) (peer : PeerInfo Address) :
    (Locked.recordFailure checks error peer).toOption = peer.recordFailure checks error := by
  simp only [Locked.recordFailure, toOption_bind, toOption_orPanic, toOption_pure]
  rfl

theorem toOption_failPeer (error : String) (peer : PeerInfo Address) :
    (Locked.failPeer checks error peer).toOption = failPeer checks error peer :=
  toOption_recordFailure checks error _

theorem toOption_increment (get : BroadcastStats → UInt64)
    (set : BroadcastStats → UInt64 → BroadcastStats) (s : NetworkState Address) :
    (Locked.increment checks get set s).toOption =
      (checks.add (get s.stats) 1 >>= fun n => some { s with stats := set s.stats n }) := by
  simp only [Locked.increment, toOption_bind, toOption_orPanic, toOption_pure]

theorem toOption_countReceived (bytes : UInt64) (s : NetworkState Address) :
    (Locked.countReceived checks bytes s).toOption =
      (checks.add s.stats.totalMessagesReceived 1 >>= fun totalMessagesReceived =>
        checks.add s.stats.totalBytesReceived bytes >>= fun totalBytesReceived =>
          some { s with stats := { s.stats with totalMessagesReceived, totalBytesReceived } }) := by
  simp only [Locked.countReceived, toOption_bind, toOption_increment, toOption_orPanic,
    toOption_pure]
  cases checks.add s.stats.totalMessagesReceived 1 <;> rfl

theorem toOption_countSent (s : NetworkState Address) :
    (Locked.countSent checks s).toOption =
      (checks.add s.stats.totalMessagesSent 1 >>= fun totalMessagesSent =>
        some { s with stats := { s.stats with totalMessagesSent } }) :=
  toOption_increment checks _ _ s

variable [DecidableEq Address] (address : Address) (s : NetworkState Address)

theorem toOption_withPeer {locked : PeerInfo Address → Update (PeerInfo Address) (PeerInfo Address)}
    {body : PeerInfo Address → Option (PeerInfo Address)}
    (h : ∀ peer, (locked peer).toOption = body peer) :
    (Locked.withPeer address locked s).toOption = s.withPeer address body := by
  unfold Locked.withPeer NetworkState.withPeer
  cases s.peers.lookup address with
  | none => rfl
  | some peer =>
      simp only [toOption_within, h]

theorem toOption_failConnection (error : String) :
    (Locked.failConnection checks address error s).toOption =
      failConnection checks address error s := by
  unfold Locked.failConnection failConnection
  split
  · simp only [toOption_bind, toOption_withPeer address s (toOption_failPeer checks error),
      toOption_increment]
  · rfl

theorem toOption_completeHandshake (message : NetworkMessage) :
    (Locked.completeHandshake checks address message s).toOption =
      completeHandshake checks address message s := by
  cases message with
  | handshake validatorId version capabilities =>
      simp only [Locked.completeHandshake, completeHandshake]
      split
      · have hgreet : (Locked.withPeer address
            (fun peer => pure (peer.greet validatorId version capabilities)) s).toOption =
            s.withPeer address fun peer => some (peer.greet validatorId version capabilities) :=
          toOption_withPeer address s fun _ => rfl
        simp only [toOption_bind, hgreet, toOption_increment]
      · rfl
  | _ => rfl

theorem toOption_takeResponse (response : ReadOutcome) :
    (Locked.takeResponse checks texts address response s).toOption =
      takeResponse checks texts address response s := by
  have hfail := toOption_withPeer address s
    (toOption_failPeer checks "Handshake response timeout")
  cases response with
  | error | timeout => exact hfail
  | data bytes =>
      cases bytes with
      | nil => exact hfail
      | cons b bytes =>
          simp only [Locked.takeResponse, takeResponse]
          cases NetworkMessage.fromBytes texts (b :: bytes) with
          | error e => rfl
          | ok message => exact toOption_completeHandshake checks address s message

theorem toOption_receive (bytes : Bytes) (now : Instant) :
    (Locked.receive checks texts address bytes now s).toOption =
      (receive checks texts address bytes now s).map Prod.snd := by
  simp only [Locked.receive, receive]
  cases NetworkMessage.fromBytes texts bytes with
  | error e => rfl
  | ok message =>
      simp only [toOption_bind, toOption_withPeer address s
        (toOption_recordReceived checks (UInt64.ofNat bytes.length) now), toOption_countReceived]
      cases s.withPeer address (PeerInfo.recordReceived checks (UInt64.ofNat bytes.length) now) with
      | none => rfl
      | some s =>
          simp only [Option.bind_eq_bind, Option.bind_some]
          cases checks.add s.stats.totalMessagesReceived 1 with
          | none => rfl
          | some n =>
              simp only [Option.bind_some]
              cases checks.add s.stats.totalBytesReceived (UInt64.ofNat bytes.length) <;> rfl

/-! ## Step by step -/

variable {checks texts address s} {s' : NetworkState Address}

/-- A step of the listener that does not panic, where it takes one lock at most. -/
theorem listeningStep_of_listen {phase phase' : ConnectionPhase} {io : ListenIo}
    {found : Option NetworkMessage}
    (hother : ∀ b bytes now, phase = .receiving → io ≠ .read (.data (b :: bytes)) now)
    (h : listen checks texts address phase io s = some (phase', found, s')) :
    listeningStep checks texts address phase io s =
      some ((phase'.onward s').map (.listening address) .result) := by
  unfold listeningStep
  split
  · exact absurd rfl (hother _ _ _ rfl)
  · unfold listenStep
    split
    · exact absurd rfl (hother _ _ _ rfl)
    · rw [h, Option.map_some, Option.map_some]

/-- A message that is received without a panic: it is ignored, or recorded and then counted. -/
theorem receiveStep_of_receive {bytes : Bytes} {now : Instant} {found : Option NetworkMessage}
    (h : receive checks texts address bytes now s = some (found, s')) :
    receiveStep checks texts address bytes now s = .running (.listening address .receiving) s' ∨
      ∃ s₁, receiveStep checks texts address bytes now s =
          .running (.counting address bytes.length) s₁ ∧
        (Locked.countReceived checks (.ofNat bytes.length) s₁).toOption = some s' := by
  cases hdecodes : NetworkMessage.fromBytes texts bytes with
  | error e =>
      simp only [receive, hdecodes, Option.some.injEq, Prod.mk.injEq] at h
      obtain ⟨_, rfl⟩ := h
      left
      simp only [receiveStep, hdecodes]
  | ok message =>
      simp only [receive, hdecodes, Option.bind_eq_bind, Option.bind_eq_some_iff,
        Option.some.injEq, Prod.mk.injEq] at h
      obtain ⟨s₁, hrecord, n, hn, m, hm, _, rfl⟩ := h
      rw [← toOption_withPeer address s (toOption_recordReceived checks _ now)] at hrecord
      right
      refine ⟨s₁, ?_, ?_⟩
      · simp only [receiveStep, hdecodes]
        exact TaskStep.proceed_of_toOption hrecord
      · rw [toOption_countReceived, hn]
        simp only [Option.bind_eq_bind, Option.bind_some, hm]

omit [DecidableEq Address] in
theorem SendStage.proceed_of_toOption {stage : SendStage}
    {u : Update (NetworkState Address) (NetworkState Address)} (h : u.toOption = some s') :
    stage.proceed u = (some stage, s') := by
  cases u with
  | ok t =>
      obtain rfl := Option.some.inj h
      rfl
  | error t => cases h

/-- A step of a send that does not panic is one step of its task, or two where the frame has been
written: the record, and the count. -/
theorem sendStep_of_send {message : NetworkMessage} {maxRetries : ℕ} {phase phase' : SendPhase}
    {io : SendIo} (h : send checks texts address message maxRetries phase io s = some (phase', s')) :
    sendStep checks texts address message maxRetries (.sending phase) io s =
        some (some (.sending phase'), s') ∨
      ∃ stage s₁, sendStep checks texts address message maxRetries (.sending phase) io s =
          some (some stage, s₁) ∧
        sendStep checks texts address message maxRetries stage .resumed s₁ =
          some (some (.sending phase'), s') := by
  have hawaits : phase.awaits io = true := by
    cases phase <;> cases io <;> first | rfl | cases h
  unfold sendStep
  split
  case h_1 number frame latencyMs now hphase =>
    obtain rfl := SendStage.sending.inj hphase
    simp only [send, recordSuccess, Option.bind_eq_bind, Option.bind_eq_some_iff,
      Option.some.injEq, Prod.mk.injEq] at h
    obtain ⟨s₁, hrecord, n, hn, rfl, rfl⟩ := h
    rw [← toOption_withPeer address s (toOption_recordSent checks _ latencyMs now)] at hrecord
    have hcount : (Locked.countSent checks s₁).toOption =
        some { s₁ with stats := { s₁.stats with totalMessagesSent := n } } := by
      rw [toOption_countSent, hn]
      rfl
    right
    exact ⟨.counting latencyMs frame.length, s₁,
      congrArg some (SendStage.proceed_of_toOption hrecord),
      congrArg some (SendStage.proceed_of_toOption hcount)⟩
  case h_2 hphase => cases hphase
  case h_3 hphase _ =>
    obtain rfl := SendStage.sending.inj hphase
    left
    simp [hawaits, h]
  case h_4 hphase _ => cases hphase

/-! ## A task alone -/

variable (checks texts) (validatorId : Bytes) (maxRetries : ℕ)

/-- A message that nobody comes between the two locks of. -/
theorem alone_receive {bytes : Bytes} {b : UInt8} {now : Instant} {found : Option NetworkMessage}
    (h : receive checks texts address (b :: bytes) now s = some (found, s')) :
    ∃ first, ∀ inputs, (networkTasks checks texts validatorId maxRetries).alone
        (.listening address .receiving) (first ++ inputs) s =
      (networkTasks checks texts validatorId maxRetries).alone (.listening address .receiving)
        inputs s' := by
  rcases receiveStep_of_receive h with hignored | ⟨s₁, hrecorded, hcounted⟩
  · refine ⟨[.listen (.read (.data (b :: bytes)) now)], ?_⟩
    intro inputs
    apply TaskSystem.alone_of_running
    simp [networkTasks, networkStep, listeningStep, hignored]
  · refine ⟨[.listen (.read (.data (b :: bytes)) now), .locked ⟨fun _ => 0, .stored _, 0⟩], ?_⟩
    intro inputs
    have hrecord : (networkTasks checks texts validatorId maxRetries).resume
        (.listening address .receiving) (.listen (.read (.data (b :: bytes)) now)) s =
          some (.running (.counting address (b :: bytes).length) s₁) := by
      simp [networkTasks, networkStep, listeningStep, hrecorded]
    refine (TaskSystem.alone_of_running hrecord).trans (TaskSystem.alone_of_running ?_)
    simp only [networkTasks, networkStep, TaskStep.proceed_of_toOption hcounted]

/-- A connection that nobody interrupts, up to its end. -/
theorem alone_listenAll {ios : List ListenIo} {phase : ConnectionPhase}
    {messages : List NetworkMessage} {result : Except CoreError Unit}
    (hphase : ∀ result, phase ≠ .finished result)
    (h : listenAll checks texts address ios phase s = some (.finished result, messages, s')) :
    ∃ inputs, (networkTasks checks texts validatorId maxRetries).alone (.listening address phase)
      inputs s = some (.result result, s') := by
  induction ios generalizing phase messages s with
  | nil =>
      obtain ⟨hfinished, _⟩ := Prod.mk.inj (Option.some.inj h)
      exact absurd hfinished (hphase result)
  | cons io ios ih =>
      simp only [listenAll, Option.bind_eq_bind, Option.bind_eq_some_iff, Option.some.injEq,
        Prod.mk.injEq, Prod.exists] at h
      obtain ⟨phase', found, s₁, hlisten, phase₂, messages', s₂, hrest, rfl, _, rfl⟩ := h
      by_cases hmessage : ∃ b bytes now, phase = .receiving ∧ io = .read (.data (b :: bytes)) now
      · obtain ⟨b, bytes, now, rfl, rfl⟩ := hmessage
        obtain ⟨⟨message, s₁'⟩, hreceive, heq⟩ := Option.map_eq_some_iff.mp hlisten
        simp only [Prod.mk.injEq] at heq
        obtain ⟨rfl, rfl, rfl⟩ := heq
        obtain ⟨first, hfirst⟩ := alone_receive checks texts validatorId maxRetries hreceive
        obtain ⟨inputs, hinputs⟩ := ih (fun _ heq => by cases heq) hrest
        exact ⟨first ++ inputs, (hfirst inputs).trans hinputs⟩
      have hstep := listeningStep_of_listen
        (fun b bytes now hphase hio => hmessage ⟨b, bytes, now, hphase, hio⟩) hlisten
      by_cases hended : ∃ result', phase' = .finished result'
      · obtain ⟨result', rfl⟩ := hended
        cases ios with
        | nil =>
            obtain ⟨heq, heq'⟩ := Prod.mk.inj (Option.some.inj hrest)
            obtain rfl := ConnectionPhase.finished.inj heq
            obtain ⟨_, rfl⟩ := Prod.mk.inj heq'
            refine ⟨[.listen io], TaskSystem.alone_of_finished ?_⟩
            simp [networkTasks, networkStep, hstep, ConnectionPhase.onward, TaskStep.map]
        | cons io' ios' => simp [listenAll, listen] at hrest
      · have hrunning : phase'.onward s₁ = .running phase' s₁ := by
          cases phase' with
          | finished result' => exact absurd ⟨result', rfl⟩ hended
          | _ => rfl
        obtain ⟨inputs, hinputs⟩ := ih (fun result' heq => hended ⟨result', heq⟩) hrest
        refine ⟨.listen io :: inputs, (TaskSystem.alone_of_running ?_).trans hinputs⟩
        simp [networkTasks, networkStep, hstep, hrunning, TaskStep.map]

theorem alone_connecting {phase phase' : ConnectPhase} {io : ConnectStepIo}
    (h : connectStep checks texts validatorId address phase io s = some (.running phase' s'))
    (inputs : List (NetworkIo Address)) :
    (networkTasks checks texts validatorId maxRetries).alone (.connecting address phase)
        (.connect io :: inputs) s =
      (networkTasks checks texts validatorId maxRetries).alone (.connecting address phase')
        inputs s' := by
  apply TaskSystem.alone_of_running
  simp [networkTasks, networkStep, h, TaskStep.map]

theorem alone_connected {phase : ConnectPhase} {io : ConnectStepIo} {r : Except CoreError Unit}
    (h : connectStep checks texts validatorId address phase io s = some (.finished r s')) :
    (networkTasks checks texts validatorId maxRetries).alone (.connecting address phase)
        [.connect io] s = some (.result r, s') := by
  apply TaskSystem.alone_of_finished
  simp [networkTasks, networkStep, h, TaskStep.map]

/-- A connection that fails, by either outcome. -/
theorem alone_unconnected (outcome : Outcome) {failure text : String}
    (houtcome : connectStep checks texts validatorId address .connecting (.connected outcome) s =
      some (.finish (.error (.invalidData text))
        (Locked.failConnection checks address failure s)))
    (h : failConnection checks address failure s = some s') :
    ∃ inputs, (networkTasks checks texts validatorId maxRetries).alone
      (.connecting address .connecting) inputs s =
        some (.result (.error (.invalidData text)), s') := by
  rw [← toOption_failConnection] at h
  rw [TaskStep.finish_of_toOption h] at houtcome
  exact ⟨_, alone_connected checks texts validatorId maxRetries houtcome⟩

theorem alone_unwritten {text : String}
    (h : s.withPeer address (failPeer checks ("Handshake write failed: " ++ text)) = some s') :
    (networkTasks checks texts validatorId maxRetries).alone (.connecting address .writing)
      [.connect (.wrote (.error text))] s =
        some (.result (.error (.invalidData ("Failed to send handshake: " ++ text))), s') := by
  rw [← toOption_withPeer address s (toOption_failPeer checks _)] at h
  apply alone_connected checks texts validatorId maxRetries
  rw [connectStep, TaskStep.finish_of_toOption h]

theorem alone_answered {response : ReadOutcome}
    (h : takeResponse checks texts address response s = some s') :
    (networkTasks checks texts validatorId maxRetries).alone (.connecting address .writing)
      [.connect (.wrote (.ok ())), .connect (.answered response)] s =
        some (.result (.ok ()), s') := by
  rw [← toOption_takeResponse] at h
  have hreading : connectStep checks texts validatorId address .writing (.wrote (.ok ())) s =
      some (.running .reading s) := rfl
  rw [alone_connecting checks texts validatorId maxRetries hreading]
  apply alone_connected checks texts validatorId maxRetries
  rw [connectStep, TaskStep.finish_of_toOption h]

theorem alone_concludeConnect {io : ConnectIo} {r : Except CoreError Unit}
    (h : concludeConnect checks texts validatorId address io s = some (r, s')) :
    ∃ inputs, (networkTasks checks texts validatorId maxRetries).alone
      (.connecting address .connecting) inputs s = some (.result r, s') := by
  obtain ⟨connect, write, response⟩ := io
  cases connect with
  | error text =>
      obtain ⟨t, hfail, heq⟩ := Option.map_eq_some_iff.mp h
      obtain ⟨rfl, rfl⟩ := Prod.mk.inj heq
      exact alone_unconnected checks texts validatorId maxRetries (.error text) rfl hfail
  | timeout =>
      obtain ⟨t, hfail, heq⟩ := Option.map_eq_some_iff.mp h
      obtain ⟨rfl, rfl⟩ := Prod.mk.inj heq
      exact alone_unconnected checks texts validatorId maxRetries .timeout rfl hfail
  | ok =>
      simp only [concludeConnect] at h
      cases hencode : (ownHandshake validatorId).toBytes texts with
      | error e =>
          rw [hencode] at h
          obtain ⟨rfl, rfl⟩ := Prod.mk.inj (Option.some.inj h)
          have hrefused : connectStep checks texts validatorId address .connecting
              (.connected .ok) s = some (.finished (.error e) s) := by
            simp [connectStep, hencode]
          exact ⟨_, alone_connected checks texts validatorId maxRetries hrefused⟩
      | ok frame =>
          rw [hencode] at h
          have hwriting : connectStep checks texts validatorId address .connecting
              (.connected .ok) s = some (.running .writing s) := by
            simp [connectStep, hencode]
          have hconnected := alone_connecting checks texts validatorId maxRetries hwriting
          cases write with
          | error text =>
              obtain ⟨t, hfail, heq⟩ := Option.map_eq_some_iff.mp h
              obtain ⟨rfl, rfl⟩ := Prod.mk.inj heq
              exact ⟨_, (hconnected _).trans
                (alone_unwritten checks texts validatorId maxRetries hfail)⟩
          | ok written =>
              obtain ⟨t, htake, heq⟩ := Option.map_eq_some_iff.mp h
              obtain ⟨rfl, rfl⟩ := Prod.mk.inj heq
              exact ⟨_, (hconnected _).trans
                (alone_answered checks texts validatorId maxRetries htake)⟩

theorem alone_connectPeer {io : ConnectIo} {r : Except CoreError Unit}
    (h : connectPeer checks texts validatorId address io s = some (r, s'))
    (readings : LockReadings Address) :
    ∃ inputs, (networkTasks checks texts validatorId maxRetries).alone
      (.begun (.connectPeer address)) inputs s = some (.result r, s') := by
  cases hpeer : s.peers.lookup address with
  | none =>
      rw [connectPeer, hpeer] at h
      obtain ⟨rfl, rfl⟩ := Prod.mk.inj (Option.some.inj h)
      refine ⟨[.locked readings], TaskSystem.alone_of_finished ?_⟩
      simp [networkTasks, networkStep, beginStep, connectStep, hpeer, TaskStep.map]
  | some peer =>
      simp only [connectPeer, hpeer] at h
      obtain ⟨inputs, hrest⟩ := alone_concludeConnect checks texts validatorId maxRetries h
      refine ⟨.locked readings :: inputs, (TaskSystem.alone_of_running ?_).trans hrest⟩
      simp [networkTasks, networkStep, beginStep, connectStep, hpeer, TaskStep.map]

/-- A call of `connect_peer` that nobody interrupts does what the operation does. -/
theorem run_connectPeer {TaskId : Type} [DecidableEq TaskId] {id : TaskId} {io : ConnectIo}
    {r : Except CoreError Unit}
    {x : TaskPool (NetworkState Address) TaskId (NetworkTask Address)}
    (hidle : x.tasks id = none)
    (h : connectPeer checks texts validatorId address io x.shared = some (r, s')) :
    ∃ calls, ((networkTasks checks texts validatorId maxRetries).machine TaskId).Run x calls
        { x with shared := s' } ∧ ∃ c ∈ calls, c.result = .returned (.result r) := by
  obtain ⟨inputs, halone⟩ := alone_connectPeer checks texts validatorId maxRetries h
    ⟨fun _ => 0, .stored _, 0⟩
  exact TaskSystem.run_call_alone hidle halone

end ValidatorSync

end SilverNetwork
