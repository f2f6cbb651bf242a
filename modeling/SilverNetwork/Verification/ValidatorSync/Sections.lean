import SilverNetwork.Model.ConcurrentNetwork
import SilverNetwork.Verification.ValidatorSync.Tasks

/-! The calls of the manager and its sequential operations. A call that nobody keeps waiting does
what the operation does. -/

namespace SilverNetwork

namespace ValidatorSync

open LockProgram

namespace NetworkProgram

variable {Address : Type} (checks : OverflowChecks) (texts : Texts Address) (validatorId : Bytes)
  (address : Address) (s : NetworkState Address)

theorem unlocked_gets {α : Type} (f : NetworkState Address → α) :
    (gets f : NetworkProgram Address α).unlocked s = some (f s, s) := rfl

theorem unlocked_write
    (f : NetworkState Address → Update (NetworkState Address) (NetworkState Address)) :
    (write f).unlocked s = (f s).toOption.map fun t => ((), t) := by
  cases h : f s with
  | ok t | error t => simp [write, unlocked, h, Update.left, Except.toOption]

theorem unlocked_increment (get : BroadcastStats → UInt64)
    (set : BroadcastStats → UInt64 → BroadcastStats) :
    (increment checks get set).unlocked s =
      (checks.add (get s.stats) 1).map fun n => ((), { s with stats := set s.stats n }) := by
  rw [increment, unlocked_guarded, unlocked_write, toOption_increment]
  cases checks.add (get s.stats) 1 <;> rfl

variable {s} in
theorem unlocked_bind_pure {α : Type} {p : NetworkProgram Address Unit}
    {o : Option (NetworkState Address)} (h : p.unlocked s = o.map fun t => ((), t)) (result : α) :
    (p >>= fun _ => pure result).unlocked s = o.map fun t => (result, t) := by
  rw [unlocked_bind, h]
  cases o <;> rfl

variable [DecidableEq Address]

theorem unlocked_addPeer (now : Instant) :
    (addPeer checks texts address now).unlocked s =
      if address ∈ s.peers then
        some (.error (.invalidData ("Peer " ++ texts.address address ++ " already exists")), s)
      else (Locked.addPeer checks address now s).toOption.map fun t => (.ok (), t) := by
  rw [addPeer, unlocked_guarded, unlocked_bind, unlocked_gets, Option.bind_some]
  by_cases hknown : address ∈ s.peers
  · simp [hknown]
  · simp only [hknown, decide_false, Bool.false_eq_true, if_false, unlocked_bind, unlocked_update,
      Option.map_some, Option.bind_some, unlocked_increment, Locked.addPeer, toOption_increment]
    cases checks.add s.stats.peerCount 1 <;> rfl

theorem unlocked_removePeer :
    (removePeer texts address).unlocked s = some (ValidatorSync.removePeer texts address s) := by
  rw [removePeer, unlocked_guarded, unlocked_bind, unlocked_gets, Option.bind_some,
    ValidatorSync.removePeer]
  by_cases hknown : address ∈ s.peers
  · simp [hknown, unlocked_bind, unlocked_guarded]
  · simp [hknown, notFound]

theorem unlocked_disconnectPeer :
    (disconnectPeer texts address).unlocked s =
      some (ValidatorSync.disconnectPeer texts address s) := by
  rw [disconnectPeer, unlocked_guarded, unlocked_bind, unlocked_gets, Option.bind_some,
    ValidatorSync.disconnectPeer]
  cases s.peers.lookup address with
  | none => rfl
  | some peer =>
      by_cases hconnected : peer.state = .connected
      · simp [hconnected, countDisconnected, unlocked_bind, unlocked_guarded]
      · simp [hconnected, countDisconnected, unlocked_bind]

omit [DecidableEq Address] in
theorem unlocked_cleanupStalePeers (now : Address → Instant) :
    (cleanupStalePeers now).unlocked s = some (ValidatorSync.cleanupStalePeers now s) := by
  simp [cleanupStalePeers, ValidatorSync.cleanupStalePeers, unlocked_guarded, unlocked_bind,
    unlocked_gets]

theorem unlocked_failPeer (error : String) :
    (failPeer checks address error).unlocked s =
      (s.withPeer address (ValidatorSync.failPeer checks error)).map fun t => ((), t) := by
  rw [failPeer, unlocked_guarded, unlocked_write,
    toOption_withPeer address s (toOption_failPeer checks error)]

theorem unlocked_failConnection (error : String) :
    (failConnection checks address error).unlocked s =
      (ValidatorSync.failConnection checks address error s).map fun t => ((), t) := by
  rw [failConnection, unlocked_guarded, unlocked_bind, unlocked_gets, Option.bind_some,
    ValidatorSync.failConnection]
  by_cases hknown : address ∈ s.peers
  · simp only [hknown, decide_true, if_true, unlocked_bind, unlocked_write,
      toOption_withPeer address s (toOption_failPeer checks error), unlocked_increment]
    cases s.withPeer address (ValidatorSync.failPeer checks error) with
    | none => rfl
    | some t =>
        simp only [Option.map_some, Option.bind_some, Option.bind_eq_bind]
        cases checks.add t.stats.connectionFailures 1 <;> rfl
  · simp [hknown]

theorem unlocked_completeHandshake (message : NetworkMessage) :
    (completeHandshake checks address message).unlocked s =
      (ValidatorSync.completeHandshake checks address message s).map fun t => ((), t) := by
  rw [completeHandshake, unlocked_guarded, unlocked_bind, unlocked_gets, Option.bind_some]
  cases message with
  | handshake validatorId version capabilities =>
      rw [ValidatorSync.completeHandshake]
      by_cases hknown : address ∈ s.peers
      · have hgreet : (Locked.withPeer address
            (fun peer => pure (peer.greet validatorId version capabilities)) s).toOption =
            s.withPeer address fun peer => some (peer.greet validatorId version capabilities) :=
          toOption_withPeer address s fun _ => rfl
        simp only [hknown, decide_true, if_true, unlocked_bind, unlocked_write, hgreet,
          unlocked_increment]
        cases s.withPeer address fun peer =>
            some (peer.greet validatorId version capabilities) with
        | none => rfl
        | some t =>
            simp only [Option.map_some, Option.bind_some, Option.bind_eq_bind]
            cases checks.add t.stats.connectedPeerCount 1 <;> rfl
      · simp [hknown]
  | _ => cases decide (address ∈ s.peers) <;> rfl

theorem unlocked_takeResponse (response : ReadOutcome) :
    (takeResponse checks texts address response).unlocked s =
      (ValidatorSync.takeResponse checks texts address response s).map fun t => ((), t) := by
  have hfail := unlocked_failPeer checks address s "Handshake response timeout"
  cases response with
  | error | timeout => exact hfail
  | data bytes =>
      cases bytes with
      | nil => exact hfail
      | cons b bytes =>
          simp only [takeResponse, ValidatorSync.takeResponse]
          cases NetworkMessage.fromBytes texts (b :: bytes) with
          | error e => rfl
          | ok message => exact unlocked_completeHandshake checks address s message

theorem unlocked_concludeConnect (io : ConnectIo) :
    (concludeConnect checks texts validatorId address io).unlocked s =
      ValidatorSync.concludeConnect checks texts validatorId address io s := by
  unfold concludeConnect ValidatorSync.concludeConnect
  cases io.connect with
  | error text | timeout =>
      exact unlocked_bind_pure (unlocked_failConnection checks address s _) _
  | ok =>
      cases (ownHandshake validatorId).toBytes texts with
      | error e => rfl
      | ok bytes =>
          cases io.write with
          | error text => exact unlocked_bind_pure (unlocked_failPeer checks address s _) _
          | ok _ =>
              exact unlocked_bind_pure (unlocked_takeResponse checks texts address s io.response) _

/-- Whichever permit it gets, a connection does what the sequential operation does. -/
theorem unlocked_connectPeer (permit : Fin connectionPermits) (io : ConnectIo) :
    (connectPeer checks texts validatorId permit address io).unlocked s =
      ValidatorSync.connectPeer checks texts validatorId address io s := by
  rw [connectPeer, unlocked_guarded, unlocked_bind, unlocked_guarded, unlocked_bind, unlocked_gets,
    Option.bind_some, ValidatorSync.connectPeer]
  cases s.peers.lookup address with
  | none => rfl
  | some peer =>
      simp only [unlocked_bind, unlocked_update, Option.map_some, Option.bind_some, unlocked_pure,
        if_true]
      exact unlocked_concludeConnect checks texts validatorId address _ io

theorem unlocked_receive (bytes : Bytes) (now : Instant) :
    (receive checks texts address bytes now).unlocked s =
      (ValidatorSync.receive checks texts address bytes now s).map fun r => ((), r.2) := by
  unfold receive ValidatorSync.receive
  cases NetworkMessage.fromBytes texts bytes with
  | error e => rfl
  | ok message =>
      simp only [unlocked_bind, unlocked_guarded, unlocked_write, unlocked_update,
        toOption_withPeer address s
          (toOption_recordReceived checks (UInt64.ofNat bytes.length) now), toOption_increment]
      cases s.withPeer address (PeerInfo.recordReceived checks (UInt64.ofNat bytes.length) now) with
      | none => rfl
      | some s =>
          simp only [Option.map_some, Option.bind_some, Option.bind_eq_bind]
          cases checks.add s.stats.totalMessagesReceived 1 with
          | none => rfl
          | some n =>
              simp only [Option.bind_some, Option.map_some]
              cases checks.add s.stats.totalBytesReceived (UInt64.ofNat bytes.length) <;> rfl

/-- The reads of the message loop, of which the last gives nothing more. -/
def loopReads (reads : List (Bytes × Instant)) : List ListenIo :=
  reads.map (fun read => .read (.data read.1) read.2) ++ [.read .timeout 0]

@[simp] theorem loopReads_nil : loopReads [] = [.read .timeout 0] := rfl

@[simp] theorem loopReads_cons (read : Bytes × Instant) (rest : List (Bytes × Instant)) :
    loopReads (read :: rest) = .read (.data read.1) read.2 :: loopReads rest := rfl

/-- The message loop at once is the message loop step after step. -/
theorem listenAll_loopReads {reads : List (Bytes × Instant)}
    (hreads : ∀ read ∈ reads, read.1 ≠ []) :
    (listenAll checks texts address (loopReads reads) .receiving s).map (fun r => (r.1, r.2.2)) =
      ((receiveAll checks texts address reads).unlocked s).map
        fun r => (.finished (.ok ()), r.2) := by
  induction reads generalizing s with
  | nil =>
      rw [receiveAll, unlocked_guarded, unlocked_update, loopReads_nil, listenAll, listen]
      · cases hangUp address s <;> rfl
      · intro b bytes h
        cases h
  | cons read rest ih =>
      obtain ⟨bytes, instant⟩ := read
      obtain ⟨b, bytes, rfl⟩ := List.exists_cons_of_ne_nil (hreads _ List.mem_cons_self)
      rw [receiveAll, unlocked_bind, unlocked_receive, loopReads_cons, listenAll, listen]
      cases ValidatorSync.receive checks texts address (b :: bytes) instant s with
      | none => rfl
      | some r =>
          have hrest := ih r.2 fun read hmem => hreads read (List.mem_cons_of_mem _ hmem)
          simp only [Option.map_some, Option.bind_some, Option.bind_eq_bind, ← hrest]
          cases listenAll checks texts address (loopReads rest) .receiving r.2 <;> rfl

variable {checks texts validatorId address s} in
theorem listenAll_of_answer {b : UInt8} {bytes : Bytes} {reads : List (Bytes × Instant)}
    {result : Except CoreError Unit} {t : NetworkState Address}
    (hreads : ∀ read ∈ reads, read.1 ≠ [])
    (h : unlocked (match NetworkMessage.fromBytes texts (b :: bytes) with
      | .error e => pure (.error e)
      | .ok message => do
          guarded (.write .peers) (update (acceptHandshake address message))
          receiveAll checks texts address reads
          pure (.ok ()) : NetworkProgram Address (Except CoreError Unit)) s = some (result, t)) :
    ∃ ios messages, listenAll checks texts address ios .greeting s =
      some (.finished result, messages, t) := by
  revert h
  cases hmessage : NetworkMessage.fromBytes texts (b :: bytes) with
  | error e =>
      rintro ⟨⟩
      refine ⟨[.wrote (.ok ()), .read (.data (b :: bytes)) 0], [], ?_⟩
      simp [listenAll, listen, hmessage]
  | ok message =>
      intro h
      simp only [unlocked_bind, unlocked_guarded, unlocked_update, Option.bind_eq_some_iff] at h
      obtain ⟨⟨_, s₁⟩, haccepted, ⟨_, s₂⟩, hloop, hend⟩ := h
      cases hend
      obtain ⟨_, haccept, ⟨⟩⟩ := Option.map_eq_some_iff.mp haccepted
      have hsteps := listenAll_loopReads checks texts address s₁ hreads
      rw [hloop] at hsteps
      obtain ⟨⟨_, messages, _⟩, hreceived, ⟨⟩⟩ := Option.map_eq_some_iff.mp hsteps
      refine ⟨.wrote (.ok ()) :: .read (.data (b :: bytes)) 0 :: loopReads reads, messages, ?_⟩
      simp [listenAll, listen, hmessage, haccept, hreceived]

/-- A connection that nobody keeps waiting runs through the steps of the listener. -/
theorem listenAll_of_handlePeerConnection {permit : Fin connectionPermits} {wrote : Except String Unit}
    {response : ReadOutcome} {reads : List (Bytes × Instant)} {result : Except CoreError Unit}
    {t : NetworkState Address} (hreads : ∀ read ∈ reads, read.1 ≠ [])
    (h : (handlePeerConnection checks texts validatorId permit address wrote response
      reads).unlocked s = some (result, t)) :
    ∃ ios messages, listenAll checks texts address ios (openConnection texts validatorId) s =
      some (.finished result, messages, t) := by
  revert h
  unfold handlePeerConnection openConnection
  rw [unlocked_guarded]
  cases (ownHandshake validatorId).toBytes texts with
  | error e =>
      rintro ⟨⟩
      exact ⟨[], [], rfl⟩
  | ok frame =>
      cases wrote with
      | error text =>
          rintro ⟨⟩
          exact ⟨[.wrote (.error text)], [], rfl⟩
      | ok =>
          cases response with
          | timeout =>
              rintro ⟨⟩
              exact ⟨[.wrote (.ok ()), .read .timeout 0], [], rfl⟩
          | error text =>
              rintro ⟨⟩
              exact ⟨[.wrote (.ok ()), .read (.error text) 0], [], rfl⟩
          | data bytes =>
              cases bytes with
              | nil =>
                  rintro ⟨⟩
                  exact ⟨[.wrote (.ok ()), .read (.data []) 0], [], rfl⟩
              | cons b bytes =>
                  intro h
                  exact listenAll_of_answer hreads h

/-! ## A message with its retries -/

variable {checks texts address s} {message : NetworkMessage} {maxRetries number : ℕ}
  {lastError : Option CoreError} {io : AttemptIo} {x : SendPhase × NetworkState Address}

variable (checks address s lastError) in
/-- An attempt that can be made gets as far as the connection. -/
theorem run_connecting {frame : Bytes} (hnumber : number < maxRetries)
    (hframe : message.toBytes texts = .ok frame) (hsmall : ¬ maxMessageSize < frame.length) :
    ∃ calls, (sendMachine texts checks address message maxRetries).Run
      (.attempt number lastError, s) calls (.connecting number frame, s) := by
  refine ⟨_, Machine.Run.start.of_step (e := .resumed) (r := ()) ?_⟩
  simp only [sendMachine, send, startAttempt, hnumber, hframe, hsmall, if_true, if_false,
    Option.map_some]

theorem run_attempt_error {e : CoreError} (hattempt : attempt texts message io = .error e)
    (hnumber : number < maxRetries) (hfail : failAttempt checks number e s = some x) :
    ∃ calls, (sendMachine texts checks address message maxRetries).Run
      (.attempt number lastError, s) calls x := by
  revert hattempt
  unfold attempt
  cases hframe : message.toBytes texts with
  | error e =>
      rintro ⟨⟩
      refine ⟨_, Machine.Run.start.of_step (e := .resumed) (r := ()) ?_⟩
      simp only [sendMachine, send, startAttempt, hnumber, hframe, if_true, hfail, Option.map_some]
  | ok frame =>
      dsimp only
      split
      case isTrue hlarge =>
        rintro ⟨⟩
        refine ⟨_, Machine.Run.start.of_step (e := .resumed) (r := ()) ?_⟩
        simp only [sendMachine, send, startAttempt, hnumber, hframe, hlarge, if_true, hfail,
          Option.map_some]
      case isFalse hsmall =>
        obtain ⟨calls, hconnecting⟩ :=
          run_connecting checks address s lastError hnumber hframe hsmall
        intro hattempt
        cases hconnect : io.connect with
        | timeout | error text =>
            rw [hconnect] at hattempt
            cases hattempt
            refine ⟨_, hconnecting.of_step (e := .connected io.connect) (r := ()) ?_⟩
            simp only [sendMachine, send, hconnect, hfail, Option.map_some]
        | ok =>
            have hwriting := hconnecting.of_step (e := .connected .ok) (r := ())
              (u := (.writing number frame, s)) rfl
            cases hwrite : io.write with
            | timeout | error text =>
                rw [hconnect, hwrite] at hattempt
                cases hattempt
                refine ⟨_, hwriting.of_step (e := .wrote io.write io.latencyMs io.now) (r := ()) ?_⟩
                simp only [sendMachine, send, hwrite, hfail, Option.map_some]
            | ok =>
                rw [hconnect, hwrite] at hattempt
                cases hattempt

theorem run_attempt_ok {bytes : UInt64} (hattempt : attempt texts message io = .ok bytes)
    (hnumber : number < maxRetries)
    (hrecord : recordSuccess checks address bytes io.latencyMs io.now s = some x) :
    ∃ calls, (sendMachine texts checks address message maxRetries).Run
      (.attempt number lastError, s) calls x := by
  revert hattempt
  unfold attempt
  cases hframe : message.toBytes texts with
  | error e => rintro ⟨⟩
  | ok frame =>
      dsimp only
      split
      case isTrue => rintro ⟨⟩
      case isFalse hsmall =>
        intro hattempt
        cases hconnect : io.connect with
        | timeout | error text =>
            rw [hconnect] at hattempt
            cases hattempt
        | ok =>
            cases hwrite : io.write with
            | timeout | error text =>
                rw [hconnect, hwrite] at hattempt
                cases hattempt
            | ok =>
                rw [hconnect, hwrite] at hattempt
                cases hattempt
                obtain ⟨calls, hconnecting⟩ :=
                  run_connecting checks address s lastError hnumber hframe hsmall
                have hwriting := hconnecting.of_step (e := .connected .ok) (r := ())
                  (u := (.writing number frame, s)) rfl
                refine ⟨_, hwriting.of_step (e := .wrote .ok io.latencyMs io.now) (r := ()) ?_⟩
                simp only [sendMachine, send, hrecord, Option.map_some]

/-- A send that nobody keeps waiting runs through the steps of its task. -/
theorem run_of_sendMessage {attempts : List AttemptIo}
    (hretries : number + attempts.length = maxRetries) {t : NetworkState Address}
    {result : Except CoreError (UInt64 × UInt64)}
    (h : (sendMessage checks texts address message attempts lastError).unlocked s =
      some (result, t)) :
    ∃ calls, (sendMachine texts checks address message maxRetries).Run
      (.attempt number lastError, s) calls (.finished result, t) := by
  -- the number is of the attempts that have failed, the list is of those that are left
  induction attempts generalizing number lastError s with
  | nil =>
      have hend : ¬ number < maxRetries := by
        rw [← hretries, List.length_nil, Nat.add_zero]
        exact lt_irrefl number
      simp only [sendMessage, unlocked_bind, unlocked_guarded, unlocked_write,
        toOption_withPeer address s (toOption_recordFailure checks _)] at h
      refine ⟨_, Machine.Run.start.of_step (e := .resumed) (r := ()) ?_⟩
      simp only [sendMachine, send, startAttempt, hend, if_false]
      cases hfailed : s.withPeer address (PeerInfo.recordFailure checks
          ((lastError.map texts.coreError).getD "Unknown error")) with
      | none =>
          rw [hfailed] at h
          cases h
      | some s' =>
          rw [hfailed] at h
          cases h
          rfl
  | cons io rest ih =>
      rw [List.length_cons] at hretries
      have hnumber : number < maxRetries := by omega
      unfold sendMessage at h
      cases hattempt : attempt texts message io with
      | ok bytes =>
          rw [hattempt] at h
          apply run_attempt_ok hattempt hnumber
          simp only [unlocked_bind, unlocked_guarded, unlocked_write, unlocked_increment,
            toOption_withPeer address s (toOption_recordSent checks bytes io.latencyMs io.now)] at h
          unfold recordSuccess
          cases hsent : s.withPeer address (PeerInfo.recordSent checks bytes io.latencyMs io.now) with
          | none =>
              rw [hsent] at h
              cases h
          | some s' =>
              rw [hsent] at h
              simp only [Option.map_some, Option.bind_some, Option.bind_eq_bind] at h ⊢
              cases hcount : checks.add s'.stats.totalMessagesSent 1 with
              | none =>
                  rw [hcount] at h
                  cases h
              | some n =>
                  rw [hcount] at h
                  cases h
                  rfl
      | error e =>
          rw [hattempt] at h
          simp only [unlocked_bind, unlocked_increment] at h
          cases hcount : checks.add s.stats.messageRetries 1 with
          | none =>
              rw [hcount] at h
              cases h
          | some messageRetries =>
              rw [hcount] at h
              have hfail : failAttempt checks number e s = some (.attempt (number + 1) (some e),
                  { s with stats := { s.stats with messageRetries } }) := by
                simp only [failAttempt, hcount, Option.bind_eq_bind, Option.bind_some]
              have hleft : number + 1 + rest.length = maxRetries := by omega
              obtain ⟨first, hfirst⟩ := run_attempt_error hattempt hnumber hfail
              obtain ⟨more, hmore⟩ := ih hleft h
              exact ⟨_, hfirst.append hmore⟩

end NetworkProgram

end ValidatorSync

end SilverNetwork
