import SilverNetwork.Verification.ValidatorSync.Broadcasting

/-! What a step of a task enters in the manager's books. A message is recorded with its peer under
one lock and counted in the statistics under another, and other tasks may come between the two. -/

namespace SilverNetwork

namespace ValidatorSync

open Update

variable {Address : Type} {checks : OverflowChecks} {texts : Texts Address}

/-! ## Accounts -/

/-- The frame of a message that a broadcast has sent, or that a message loop has received. -/
inductive Transfer (Address : Type) where
  | sent (address : Address) (length : ℕ)
  | received (address : Address) (length : ℕ)
  deriving DecidableEq

/-- What a step enters: a frame with its peer, a frame in the statistics, or the result of a
broadcast. -/
inductive Booking (Address : Type) where
  | recorded (transfer : Transfer Address)
  | counted (transfer : Transfer Address)
  | concluded (result : BroadcastResult)
  deriving DecidableEq

structure Account where
  messagesSent : UInt64
  bytesSent : UInt64
  messagesReceived : UInt64
  bytesReceived : UInt64

def Account.send (bytes : ℕ) (account : Account) : Account :=
  { account with
    messagesSent := account.messagesSent + 1
    bytesSent := account.bytesSent + .ofNat bytes }

def Account.receive (bytes : ℕ) (account : Account) : Account :=
  { account with
    messagesReceived := account.messagesReceived + 1
    bytesReceived := account.bytesReceived + .ofNat bytes }

/-- What a booking does to the account of the address. -/
def Account.book [DecidableEq Address] (address : Address) :
    Option (Booking Address) → Account → Account
  | some (.recorded (.sent other length)), account =>
      if other = address then account.send length else account
  | some (.recorded (.received other length)), account =>
      if other = address then account.receive length else account
  | _, account => account

def PeerInfo.account (peer : PeerInfo Address) : Account :=
  ⟨peer.messagesSent, peer.bytesSent, peer.messagesReceived, peer.bytesReceived⟩

/-- The figures of the statistics that count frames, broadcasts and peers. -/
structure Totals where
  totalBroadcasts : UInt64
  successfulBroadcasts : UInt64
  failedBroadcasts : UInt64
  totalMessagesSent : UInt64
  totalMessagesReceived : UInt64
  totalBytesSent : UInt64
  totalBytesReceived : UInt64
  peerCount : UInt64

def Totals.book : Option (Booking Address) → Totals → Totals
  | some (.counted (.sent _ _)), totals =>
      { totals with totalMessagesSent := totals.totalMessagesSent + 1 }
  | some (.counted (.received _ length)), totals =>
      { totals with
        totalMessagesReceived := totals.totalMessagesReceived + 1
        totalBytesReceived := totals.totalBytesReceived + .ofNat length }
  | some (.concluded result), totals =>
      { totals with
        totalBroadcasts := totals.totalBroadcasts + 1
        successfulBroadcasts := totals.successfulBroadcasts + .ofNat result.successful
        failedBroadcasts := totals.failedBroadcasts + .ofNat result.failed
        totalBytesSent := totals.totalBytesSent + result.totalBytesSent }
  | _, totals => totals

def BroadcastStats.totals (stats : BroadcastStats) : Totals where
  totalBroadcasts := stats.totalBroadcasts
  successfulBroadcasts := stats.successfulBroadcasts
  failedBroadcasts := stats.failedBroadcasts
  totalMessagesSent := stats.totalMessagesSent
  totalMessagesReceived := stats.totalMessagesReceived
  totalBytesSent := stats.totalBytesSent
  totalBytesReceived := stats.totalBytesReceived
  peerCount := stats.peerCount

variable [DecidableEq Address] {validatorId : Bytes} {maxRetries : ℕ} {address : Address}
  {s s' : NetworkState Address}

def NetworkState.account (s : NetworkState Address) (address : Address) : Option Account :=
  (s.peers.lookup address).map PeerInfo.account

theorem NetworkState.account_eq_none_iff : s.account address = none ↔ address ∉ s.peers := by
  rw [NetworkState.account, Option.map_eq_none_iff, AList.lookup_eq_none]

/-- What a step of a send enters, if it does not panic. -/
def sendBooking (address : Address) : SendStage → SendIo → Option (Booking Address)
  | .sending (.writing _ frame), .wrote .ok _ _ => some (.recorded (.sent address frame.length))
  | .counting _ length, .resumed => some (.counted (.sent address length))
  | _, _ => none

/-- What a step of the task enters, if it panics nowhere. -/
def stepBooking (texts : Texts Address) (task : NetworkTask Address) (io : NetworkIo Address)
    (progress : Progress NetworkAnswer) : Option (Booking Address) :=
  match task, io, progress with
  | .listening address .receiving, .listen (.read (.data (b :: bytes)) _), _ =>
      match NetworkMessage.fromBytes texts (b :: bytes) with
      | .error _ => none
      | .ok _ => some (.recorded (.received address (b :: bytes).length))
  | .counting address length, .locked _, _ => some (.counted (.received address length))
  | .broadcasting _ sends, .send index io, _ =>
      match sends[index]? with
      | some ⟨address, some stage⟩ => sendBooking address stage io
      | _ => none
  | .broadcasting _ _, .locked _, .returned (.broadcast result) => some (.concluded result)
  | _, _, _ => none

/-- Nothing has changed that is accounted for. -/
structure Kept (s s' : NetworkState Address) : Prop where
  accounts : ∀ a, s'.account a = s.account a
  totals : s'.stats.totals = s.stats.totals

/-- What a step does to the accounts. -/
inductive Effect (s : NetworkState Address) :
    Option (Booking Address) → NetworkState Address → Prop where
  | book (t : Option (Booking Address)) (s' : NetworkState Address)
      (accounts : ∀ a, s'.account a = (s.account a).map (Account.book a t))
      (totals : s'.stats.totals = s.stats.totals.book t) : Effect s t s'
  | add (address : Address) (now : Instant) (unknown : address ∉ s.peers) :
      Effect s none
        ⟨s.peers.insert address (.new address now),
          { s.stats with peerCount := s.stats.peerCount + 1 }⟩
  | remove (address : Address) (known : address ∈ s.peers) :
      Effect s none
        ⟨s.peers.erase address,
          { s.stats with peerCount := Saturating.sub64 s.stats.peerCount 1 }⟩
  | clean (p : Address → PeerInfo Address → Bool) :
      Effect s none
        ⟨HashMap.retain s.peers p,
          { s.stats with peerCount := .ofNat (HashMap.retain s.peers p).len }⟩

/-! ## Under a lock -/

/-- An update of a peer, for the accounts. -/
theorem account_withPeer {body : PeerInfo Address → Option (PeerInfo Address)}
    {f : Address → Account → Account} (hf : ∀ a, a ≠ address → f a = id)
    (hbody : ∀ peer peer', body peer = some peer' → peer'.account = f address peer.account)
    (h : s.withPeer address body = some s') :
    (∀ a, s'.account a = (s.account a).map (f a)) ∧ s'.stats = s.stats := by
  unfold NetworkState.withPeer at h
  cases hlookup : s.peers.lookup address with
  | none =>
      rw [hlookup] at h
      obtain rfl := Option.some.inj h
      refine ⟨?_, rfl⟩
      intro a
      by_cases ha : a = address
      · subst ha
        simp [NetworkState.account, hlookup]
      · rw [hf a ha, Option.map_id_fun, id]
  | some peer =>
      rw [hlookup] at h
      obtain ⟨peer', hpeer', rfl⟩ := Option.map_eq_some_iff.mp h
      refine ⟨?_, rfl⟩
      intro a
      by_cases ha : a = address
      · subst ha
        simp [NetworkState.account, hlookup, hbody peer peer' hpeer']
      · simp [NetworkState.account, ha, hf a ha]

namespace Kept

theorem refl (s : NetworkState Address) : Kept s s := ⟨fun _ => rfl, rfl⟩

/-- A change of the statistics that no frame causes. -/
theorem stats (h : Kept s s') {stats : BroadcastStats} (hstats : stats.totals = s'.stats.totals) :
    Kept s { s' with stats } :=
  ⟨h.accounts, hstats.trans h.totals⟩

/-- An update of a peer that keeps its account. -/
theorem withPeer {body : PeerInfo Address → Option (PeerInfo Address)}
    (hbody : ∀ peer peer', body peer = some peer' → peer'.account = peer.account)
    (h : s.withPeer address body = some s') : Kept s s' := by
  obtain ⟨haccounts, hstats⟩ := account_withPeer (f := fun _ => id) (fun _ _ => rfl) hbody h
  refine ⟨?_, congrArg BroadcastStats.totals hstats⟩
  intro a
  rw [haccounts a, Option.map_id_fun, id]

theorem recordFailure (error : String)
    (h : s.withPeer address (PeerInfo.recordFailure checks error) = some s') : Kept s s' := by
  refine withPeer (fun peer peer' hpeer => ?_) h
  simp only [PeerInfo.recordFailure, Option.bind_eq_bind, Option.bind_eq_some_iff,
    Option.some.injEq] at hpeer
  obtain ⟨failedAttempts, _, rfl⟩ := hpeer
  split <;> rfl

theorem failPeer (error : String)
    (h : s.withPeer address (ValidatorSync.failPeer checks error) = some s') : Kept s s' := by
  refine withPeer (fun peer peer' hpeer => ?_) h
  simp only [ValidatorSync.failPeer, PeerInfo.recordFailure, Option.bind_eq_bind,
    Option.bind_eq_some_iff, Option.some.injEq] at hpeer
  obtain ⟨failedAttempts, _, rfl⟩ := hpeer
  split <;> rfl

/-- An update that keeps the account of its peer, whatever it does else. -/
theorem update {f : PeerInfo Address → PeerInfo Address}
    (h : s.withPeer address (fun peer => some (f peer)) = some s')
    (hf : ∀ peer, (f peer).account = peer.account) : Kept s s' :=
  withPeer (fun peer _ hpeer => Option.some.inj hpeer ▸ hf peer) h

theorem failConnection {error : String}
    (h : ValidatorSync.failConnection checks address error s = some s') : Kept s s' := by
  unfold ValidatorSync.failConnection at h
  split at h
  · simp only [Option.bind_eq_bind, Option.bind_eq_some_iff, Option.some.injEq] at h
    obtain ⟨s₁, hfail, connectionFailures, _, rfl⟩ := h
    exact (Kept.failPeer error hfail).stats rfl
  · obtain rfl := Option.some.inj h
    exact refl s

theorem completeHandshake {message : NetworkMessage}
    (h : ValidatorSync.completeHandshake checks address message s = some s') : Kept s s' := by
  cases message with
  | handshake validatorId version capabilities =>
      simp only [ValidatorSync.completeHandshake] at h
      split at h
      · simp only [Option.bind_eq_bind, Option.bind_eq_some_iff, Option.some.injEq] at h
        obtain ⟨s₁, hgreet, connectedPeerCount, _, rfl⟩ := h
        exact (Kept.update hgreet fun _ => rfl).stats rfl
      · obtain rfl := Option.some.inj h
        exact refl s
  | _ =>
      obtain rfl := Option.some.inj h
      exact refl s

theorem takeResponse {response : ReadOutcome}
    (h : ValidatorSync.takeResponse checks texts address response s = some s') : Kept s s' := by
  unfold ValidatorSync.takeResponse at h
  split at h
  · split at h
    · obtain rfl := Option.some.inj h
      exact refl s
    · exact completeHandshake h
  · exact failPeer _ h

end Kept

theorem Effect.keep (s' : NetworkState Address) (h : Kept s s') : Effect s none s' := by
  refine .book none s' ?_ h.totals
  intro a
  rw [h.accounts a]
  exact Option.map_id'.symm

/-! ## The steps of each task -/

/-- No overflow check stops the step, or the sends that it has to do with. -/
def Untroubled :
    TaskStep (NetworkTask Address) NetworkAnswer (NetworkState Address) → Prop
  | .running (.broadcasting _ sends) _ => ∀ send ∈ sends, send.stage ≠ none
  | .running _ _ => True
  | .finished _ _ => True
  | .panicked _ => False

omit [DecidableEq Address] in
theorem toOption_of_finish {π ρ : Type} {result : ρ} {u : Update (NetworkState Address)
    (NetworkState Address)} (h : (TaskStep.finish result u : TaskStep π ρ _).progress ≠ .panicked) :
    u.toOption = some (TaskStep.finish result u : TaskStep π ρ _).state := by
  cases u with
  | ok s => rfl
  | error s => exact absurd rfl h

theorem Kept.connectStep {phase : ConnectPhase} {io : ConnectStepIo}
    {step : TaskStep ConnectPhase (Except CoreError Unit) (NetworkState Address)}
    (hstep : ValidatorSync.connectStep checks texts validatorId address phase io s = some step)
    (hcalm : step.progress ≠ .panicked) : Kept s step.state := by
  unfold ValidatorSync.connectStep at hstep
  split at hstep
  case h_1 =>
      split at hstep
      · obtain rfl := Option.some.inj hstep
        exact Kept.refl s
      · rename_i peer hpeer
        obtain rfl := Option.some.inj hstep
        have hupdate : s.withPeer address (fun peer => some { peer with state := .connecting }) =
            some { s with peers := s.peers.insert address { peer with state := .connecting } } := by
          simp [NetworkState.withPeer, hpeer]
        exact Kept.update hupdate fun _ => rfl
  case h_2 | h_3 =>
      obtain rfl := Option.some.inj hstep
      have hfail := toOption_of_finish hcalm
      rw [toOption_failConnection] at hfail
      exact Kept.failConnection hfail
  case h_4 =>
      split at hstep
      · obtain rfl := Option.some.inj hstep
        exact Kept.refl s
      · obtain rfl := Option.some.inj hstep
        exact Kept.refl s
  case h_5 =>
      obtain rfl := Option.some.inj hstep
      have hfail := toOption_of_finish hcalm
      rw [toOption_withPeer address s (toOption_failPeer checks _)] at hfail
      exact Kept.failPeer _ hfail
  case h_6 =>
      obtain rfl := Option.some.inj hstep
      exact Kept.refl s
  case h_7 =>
      obtain rfl := Option.some.inj hstep
      have htake := toOption_of_finish hcalm
      rw [toOption_takeResponse] at htake
      exact Kept.takeResponse htake
  case h_8 => cases hstep

/-- An update of a peer that enters a frame in its account. -/
theorem effect_recorded {transfer : Transfer Address} {body : PeerInfo Address → Option (PeerInfo Address)}
    (hother : ∀ a, a ≠ address → Account.book a (some (.recorded transfer)) = id)
    (hbody : ∀ peer peer', body peer = some peer' →
      peer'.account = Account.book address (some (.recorded transfer)) peer.account)
    (h : s.withPeer address body = some s') : Effect s (some (.recorded transfer)) s' := by
  obtain ⟨haccounts, hstats⟩ := account_withPeer
    (f := fun a => Account.book a (some (.recorded transfer))) hother hbody h
  refine .book _ _ haccounts ?_
  rw [hstats]
  cases transfer <;> rfl

theorem effect_recordReceived {length : ℕ} {now : Instant}
    (h : s.withPeer address (PeerInfo.recordReceived checks (.ofNat length) now) = some s') :
    Effect s (some (.recorded (.received address length))) s' := by
  refine effect_recorded (fun a ha => funext fun account => if_neg (Ne.symm ha)) ?_ h
  intro peer peer' hpeer
  simp only [PeerInfo.recordReceived, Option.bind_eq_bind, Option.bind_eq_some_iff,
    Option.some.injEq] at hpeer
  obtain ⟨messagesReceived, hmessages, bytesReceived, hbytes, rfl⟩ := hpeer
  obtain rfl := OverflowChecks.add_eq_some hmessages
  obtain rfl := OverflowChecks.add_eq_some hbytes
  exact (if_pos rfl).symm

theorem effect_recordSent {length : ℕ} {latencyMs : UInt64} {now : Instant}
    (h : s.withPeer address (PeerInfo.recordSent checks (.ofNat length) latencyMs now) = some s') :
    Effect s (some (.recorded (.sent address length))) s' := by
  refine effect_recorded (fun a ha => funext fun account => if_neg (Ne.symm ha)) ?_ h
  intro peer peer' hpeer
  simp only [PeerInfo.recordSent, Option.bind_eq_bind, Option.bind_eq_some_iff,
    Option.some.injEq] at hpeer
  obtain ⟨messagesSent, hmessages, bytesSent, hbytes, average, _, rfl⟩ := hpeer
  obtain rfl := OverflowChecks.add_eq_some hmessages
  obtain rfl := OverflowChecks.add_eq_some hbytes
  exact (if_pos rfl).symm

theorem effect_countReceived {length : ℕ}
    (h : (Locked.countReceived checks (.ofNat length) s).toOption = some s') :
    Effect s (some (.counted (.received address length))) s' := by
  rw [toOption_countReceived] at h
  simp only [Option.bind_eq_bind, Option.bind_eq_some_iff, Option.some.injEq] at h
  obtain ⟨messages, hmessages, bytes, hbytes, rfl⟩ := h
  obtain rfl := OverflowChecks.add_eq_some hmessages
  obtain rfl := OverflowChecks.add_eq_some hbytes
  exact .book _ _ (fun a => Option.map_id'.symm) rfl

theorem effect_countSent {length : ℕ} (h : (Locked.countSent checks s).toOption = some s') :
    Effect s (some (.counted (.sent address length))) s' := by
  rw [toOption_countSent] at h
  simp only [Option.bind_eq_bind, Option.bind_eq_some_iff, Option.some.injEq] at h
  obtain ⟨messages, hmessages, rfl⟩ := h
  obtain rfl := OverflowChecks.add_eq_some hmessages
  exact .book _ _ (fun a => Option.map_id'.symm) rfl

/-- The steps of the listener that read no message change no account. -/
theorem Kept.listenStep {phase : ConnectionPhase} {io : ListenIo}
    {step : TaskStep ConnectionPhase (Except CoreError Unit) (NetworkState Address)}
    (hstep : ValidatorSync.listenStep checks texts address phase io s = some step)
    (hother : ∀ b bytes now, phase = .receiving → io ≠ .read (.data (b :: bytes)) now) :
    Kept s step.state := by
  unfold ValidatorSync.listenStep at hstep
  split at hstep
  · exact absurd rfl (hother _ _ _ rfl)
  · obtain ⟨⟨phase', found, s'⟩, hlisten, rfl⟩ := Option.map_eq_some_iff.mp hstep
    have hkept : Kept s s' := by
      cases hearRule_of_listen hlisten with
      | greet | fail => exact Kept.refl s
      | accept bytes now message _ reads accepts =>
          cases message with
          | handshake peerId version capabilities => exact Kept.update accepts fun _ => rfl
          | _ =>
              obtain rfl := Option.some.inj accepts
              exact Kept.refl s
      | receive bytes now found _ nonempty receives =>
          cases bytes with
          | nil => exact absurd rfl nonempty
          | cons b bytes => exact absurd rfl (hother b bytes now rfl)
      | hangUp outcome now _ hangs => exact Kept.update hangs fun _ => rfl
    cases phase' <;> exact hkept

omit [DecidableEq Address] in
theorem toOption_of_proceed {π ρ : Type} {task : π} {u : Update (NetworkState Address)
    (NetworkState Address)} (h : (TaskStep.proceed task u : TaskStep π ρ _).progress ≠ .panicked) :
    u.toOption = some (TaskStep.proceed task u : TaskStep π ρ _).state := by
  cases u with
  | ok s => rfl
  | error s => exact absurd rfl h

omit [DecidableEq Address] in
/-- A listener that has read no message enters nothing. -/
theorem stepBooking_listening {phase : ConnectionPhase} {io : ListenIo}
    {progress : Progress NetworkAnswer}
    (hother : ∀ b bytes now, phase = .receiving → io = .read (.data (b :: bytes)) now → False) :
    stepBooking texts (.listening address phase) (.listen io) progress = none := by
  unfold stepBooking
  split
  case h_1 hphase hio =>
      cases hphase
      cases hio
      exact (hother _ _ _ rfl rfl).elim
  case h_2 hphase _ => cases hphase
  case h_3 hphase _ => cases hphase
  case h_4 hphase _ => cases hphase
  case h_5 => rfl

/-- What the listener hears is recorded, and its other steps change no account. -/
theorem effect_listeningStep {phase : ConnectionPhase} {io : ListenIo}
    {progress : Progress NetworkAnswer}
    {step : TaskStep (NetworkTask Address) NetworkAnswer (NetworkState Address)}
    (hstep : listeningStep checks texts address phase io s = some step)
    (hcalm : step.progress ≠ .panicked) :
    Effect s (stepBooking texts (.listening address phase) (.listen io) progress) step.state := by
  unfold listeningStep at hstep
  split at hstep
  · rename_i b bytes now
    obtain rfl := Option.some.inj hstep
    unfold receiveStep at hcalm ⊢
    simp only [stepBooking]
    cases hdecodes : NetworkMessage.fromBytes texts (b :: bytes) with
    | error e => exact .keep s (Kept.refl s)
    | ok message =>
        rw [hdecodes] at hcalm
        have hrecord := toOption_of_proceed hcalm
        rw [toOption_withPeer address s (toOption_recordReceived checks _ now)] at hrecord
        exact effect_recordReceived hrecord
  · rename_i hother
    obtain ⟨step, hlisten, rfl⟩ := Option.map_eq_some_iff.mp hstep
    have hquiet : ∀ b bytes now, phase = .receiving → io ≠ .read (.data (b :: bytes)) now :=
      fun b bytes now hphase hio => hother b bytes now hphase hio
    rw [stepBooking_listening hother, TaskStep.state_map]
    exact .keep _ (Kept.listenStep hlisten hquiet)

theorem Kept.send {message : NetworkMessage} {phase phase' : SendPhase} {io : SendIo}
    (hsend : ValidatorSync.send checks texts address message maxRetries phase io s =
      some (phase', s')) (hnone : sendBooking address (.sending phase) io = none) : Kept s s' := by
  cases attemptRule_of_send hsend with
  | start | connect => exact Kept.refl s
  | refuse | unconnected | unwritten => exact (Kept.refl s).stats rfl
  | giveUp number lastError _ ended records => exact Kept.recordFailure _ records
  | succeed number frame latencyMs now _ records => cases hnone

omit [DecidableEq Address] in
theorem toOption_of_stage {stage stage' : SendStage}
    {u : Update (NetworkState Address) (NetworkState Address)}
    (h : some (stage.proceed u) = some (some stage', s')) : stage' = stage ∧ u.toOption = some s' := by
  cases u with
  | ok t =>
      obtain ⟨hstage, rfl⟩ := Prod.mk.inj (Option.some.inj h)
      exact ⟨(Option.some.inj hstage).symm, rfl⟩
  | error t => cases (Prod.mk.inj (Option.some.inj h)).1

omit [DecidableEq Address] in
/-- A send that has not written its frame enters nothing. -/
theorem sendBooking_sending {phase : SendPhase} {io : SendIo}
    (hother : ∀ number frame latencyMs now, io = .wrote .ok latencyMs now →
      phase = .writing number frame → False) :
    sendBooking address (.sending phase) io = none := by
  unfold sendBooking
  split
  case h_1 hphase =>
      cases hphase
      exact absurd rfl (hother _ _ _ _ rfl)
  case h_2 hphase => cases hphase
  case h_3 => rfl

theorem effect_sendStep {message : NetworkMessage} {stage stage' : SendStage} {io : SendIo}
    (hstep : sendStep checks texts address message maxRetries stage io s =
      some (some stage', s')) : Effect s (sendBooking address stage io) s' := by
  unfold sendStep at hstep
  split at hstep
  case h_1 number frame latencyMs now =>
      have hrecord := (toOption_of_stage hstep).2
      rw [toOption_withPeer address s (toOption_recordSent checks _ latencyMs now)] at hrecord
      exact effect_recordSent hrecord
  case h_2 latencyMs length => exact effect_countSent (toOption_of_stage hstep).2
  case h_3 phase hother =>
      have hnone : sendBooking address (.sending phase) io = none := sendBooking_sending hother
      rw [hnone]
      split at hstep
      · split at hstep
        · rename_i hsend
          obtain ⟨_, rfl⟩ := Prod.mk.inj (Option.some.inj hstep)
          exact .keep _ (Kept.send hsend hnone)
        · simp at hstep
      · cases hstep
  case h_4 => cases hstep

omit [DecidableEq Address] in
theorem stepBooking_send {message : NetworkMessage} {sends : List (SendTask Address)} {index : ℕ}
    {io : SendIo} {stage : SendStage} {progress : Progress NetworkAnswer}
    (h : sends[index]? = some ⟨address, some stage⟩) :
    stepBooking texts (.broadcasting message sends) (.send index io) progress =
      sendBooking address stage io := by
  simp only [stepBooking, h]

theorem effect_broadcastSend {message : NetworkMessage} {sends : List (SendTask Address)}
    {index : ℕ} {io : SendIo}
    {step : TaskStep (NetworkTask Address) NetworkAnswer (NetworkState Address)}
    (hstep : broadcastSend checks texts maxRetries message sends index io s = some step)
    (hcalm : Untroubled step) :
    Effect s (stepBooking texts (.broadcasting message sends) (.send index io) step.progress)
      step.state := by
  simp only [broadcastSend, Option.bind_eq_bind, Option.bind_eq_some_iff, Option.some.injEq,
    Prod.exists] at hstep
  obtain ⟨⟨address, _⟩, htask, stage, rfl, stage', s', hsend, rfl⟩ := hstep
  have hmem : (⟨address, stage'⟩ : SendTask Address) ∈ sends.set index ⟨address, stage'⟩ :=
    List.mem_set (List.getElem?_eq_some_iff.mp htask).1 _
  have hstage : stage' ≠ none := hcalm _ hmem
  obtain ⟨stage'', rfl⟩ := Option.ne_none_iff_exists'.mp hstage
  rw [stepBooking_send htask]
  exact effect_sendStep hsend

theorem effect_addPeer {readings : LockReadings Address}
    (hcalm : (addPeer checks texts address readings s).progress ≠ .panicked) :
    Effect s none (addPeer checks texts address readings s).state := by
  unfold addPeer at hcalm ⊢
  split
  · exact .keep s (Kept.refl s)
  · rename_i hunknown
    rw [if_neg hunknown] at hcalm
    have hadd := toOption_of_finish hcalm
    simp only [Locked.addPeer, toOption_increment, Option.bind_eq_bind, Option.bind_eq_some_iff,
      Option.some.injEq] at hadd
    obtain ⟨n, hn, hstate⟩ := hadd
    obtain rfl := OverflowChecks.add_eq_some hn
    rw [Locked.addPeer, ← hstate]
    exact .add address (readings.now address) hunknown

theorem effect_removePeer : Effect s none (removePeer texts address s).2 := by
  unfold removePeer
  split
  · rename_i hknown
    exact .remove address hknown
  · exact .keep s (Kept.refl s)

theorem effect_disconnectPeer : Effect s none (disconnectPeer texts address s).2 := by
  unfold disconnectPeer
  split
  · exact .keep s (Kept.refl s)
  · rename_i peer hpeer
    have hupdate : s.withPeer address (fun peer => some { peer with state := .disconnected }) =
        some { s with peers := s.peers.insert address { peer with state := .disconnected } } := by
      simp [NetworkState.withPeer, hpeer]
    refine .keep _ ((Kept.update hupdate fun _ => rfl).stats ?_)
    split <;> rfl

omit [DecidableEq Address] in
theorem progress_ne_of_untroubled
    {step : TaskStep (NetworkTask Address) NetworkAnswer (NetworkState Address)}
    (h : Untroubled step) : step.progress ≠ .panicked := by
  cases step with
  | running | finished => simp [TaskStep.progress]
  | panicked s => exact absurd h id

omit [DecidableEq Address] in
theorem progress_of_map {π π' ρ ρ' : Type} {f : π → π'} {g : ρ → ρ'}
    {step : TaskStep π ρ (NetworkState Address)} (h : (step.map f g).progress ≠ .panicked) :
    step.progress ≠ .panicked := by
  cases step with
  | running | finished => simp [TaskStep.progress]
  | panicked s => exact absurd rfl h

theorem effect_beginStep {op : NetworkOp Address} {readings : LockReadings Address}
    {step : TaskStep (NetworkTask Address) NetworkAnswer (NetworkState Address)}
    (hstep : beginStep checks texts validatorId op readings s = some step)
    (hcalm : step.progress ≠ .panicked) : Effect s none step.state := by
  cases op with
  | addPeer address =>
      obtain rfl := Option.some.inj hstep
      exact effect_addPeer hcalm
  | removePeer address =>
      obtain rfl := Option.some.inj hstep
      exact effect_removePeer
  | connectPeer address =>
      obtain ⟨step, hconnect, rfl⟩ := Option.map_eq_some_iff.mp hstep
      rw [TaskStep.state_map]
      exact .keep _ (Kept.connectStep hconnect (progress_of_map hcalm))
  | disconnectPeer address =>
      obtain rfl := Option.some.inj hstep
      exact effect_disconnectPeer
  | handlePeerConnection address =>
      simp only [beginStep] at hstep
      split at hstep <;> (obtain rfl := Option.some.inj hstep; exact .keep s (Kept.refl s))
  | cleanupStalePeers =>
      obtain rfl := Option.some.inj hstep
      exact .clean _
  | reconnectFailedPeers =>
      obtain rfl := Option.some.inj hstep
      cases failedPeers readings.order s <;> exact .keep s (Kept.refl s)
  | broadcastMessage message =>
      obtain rfl := Option.some.inj hstep
      unfold startBroadcast
      split <;> exact .keep s (Kept.refl s)

omit [DecidableEq Address] in
theorem totals_recordBroadcast {result : BroadcastResult} {stats stats' : BroadcastStats}
    (h : (stats.recordBroadcast checks result).toOption = some stats') :
    stats'.totals = stats.totals.book (some (.concluded result : Booking Address)) := by
  simp only [BroadcastStats.recordBroadcast, toOption_bind, toOption_orPanic, toOption_pure,
    Option.bind_eq_bind, Option.bind_eq_some_iff, Option.some.injEq] at h
  obtain ⟨broadcasts, hbroadcasts, successful, hsuccessful, failed, hfailed, bytes, hbytes, rfl⟩ := h
  obtain rfl := OverflowChecks.add_eq_some hbroadcasts
  obtain rfl := OverflowChecks.add_eq_some hsuccessful
  obtain rfl := OverflowChecks.add_eq_some hfailed
  obtain rfl := OverflowChecks.add_eq_some hbytes
  rfl

theorem effect_concludeBroadcast {message : NetworkMessage} {sends : List (SendTask Address)}
    {readings : LockReadings Address} {durationMs : UInt64}
    (hcalm : (concludeBroadcast checks sends durationMs s).progress ≠ .panicked) :
    Effect s (stepBooking texts (.broadcasting message sends) (.locked readings)
      (concludeBroadcast checks sends durationMs s).progress)
      (concludeBroadcast checks sends durationMs s).state := by
  unfold concludeBroadcast at hcalm ⊢
  split
  · rename_i hfold
    rw [hfold] at hcalm
    exact absurd rfl hcalm
  · rename_i tally hfold
    rw [hfold] at hcalm
    dsimp only at hcalm ⊢
    cases hrecord : s.stats.recordBroadcast checks (tally.result sends.length durationMs) with
    | error stats =>
        rw [hrecord] at hcalm
        exact absurd rfl hcalm
    | ok stats =>
        refine .book _ _ (fun a => Option.map_id'.symm) ?_
        exact totals_recordBroadcast (by rw [hrecord]; rfl)

/-- What a step of any task does to the accounts. -/
theorem effect_networkStep {task : NetworkTask Address} {io : NetworkIo Address}
    {step : TaskStep (NetworkTask Address) NetworkAnswer (NetworkState Address)}
    (hstep : networkStep checks texts validatorId maxRetries task io s = some step)
    (hcalm : Untroubled step) :
    Effect s (stepBooking texts task io step.progress) step.state := by
  have hprogress := progress_ne_of_untroubled hcalm
  unfold networkStep at hstep
  split at hstep
  case h_1 op readings => exact effect_beginStep hstep hprogress
  case h_2 address phase io =>
      obtain ⟨step, hconnect, rfl⟩ := Option.map_eq_some_iff.mp hstep
      rw [TaskStep.state_map]
      exact .keep _ (Kept.connectStep hconnect (progress_of_map hprogress))
  case h_3 address phase rest reconnected io =>
      obtain ⟨step, hconnect, rfl⟩ := Option.map_eq_some_iff.mp hstep
      have hkept : step.progress ≠ .panicked → Kept s step.state := Kept.connectStep hconnect
      cases step with
      | running phase s' => exact .keep s' (hkept (by simp [TaskStep.progress]))
      | finished result s' =>
          have hs' : Kept s s' := hkept (by simp [TaskStep.progress])
          cases result <;> cases rest <;> exact .keep s' hs'
      | panicked s' => exact absurd rfl hprogress
  case h_4 address phase io => exact effect_listeningStep hstep hprogress
  case h_5 address length readings =>
      obtain rfl := Option.some.inj hstep
      exact effect_countReceived (toOption_of_proceed hprogress)
  case h_6 message sends index io => exact effect_broadcastSend hstep hcalm
  case h_7 sends readings =>
      split at hstep
      · obtain rfl := Option.some.inj hstep
        exact effect_concludeBroadcast hprogress
      · cases hstep
  case h_8 => cases hstep

end ValidatorSync

end SilverNetwork
