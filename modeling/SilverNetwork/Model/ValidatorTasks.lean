import SilverNetwork.Foundations.TaskPool
import SilverNetwork.Model.ValidatorSync

/-! The tasks of a validator network manager, which share its peers. Each holds the lock of the peers
for one step at a time, and waits for the lock or for the outside world between its steps. -/

namespace SilverNetwork

namespace ValidatorSync

open Update

variable {Address : Type}

/-! ## What is written under a lock -/

namespace Locked

def recordSent (checks : OverflowChecks) (bytes latencyMs : UInt64) (now : Instant)
    (peer : PeerInfo Address) : Update (PeerInfo Address) (PeerInfo Address) := do
  let messagesSent ← orPanic peer (checks.add peer.messagesSent 1)
  let peer := { peer with messagesSent }
  let bytesSent ← orPanic peer (checks.add peer.bytesSent bytes)
  let peer := { peer with bytesSent }.updateLastSeen now
  let latencyMs ← orPanic peer (PeerInfo.averageLatency checks peer.latencyMs latencyMs)
  pure { peer with latencyMs }

def recordReceived (checks : OverflowChecks) (bytes : UInt64) (now : Instant)
    (peer : PeerInfo Address) : Update (PeerInfo Address) (PeerInfo Address) := do
  let messagesReceived ← orPanic peer (checks.add peer.messagesReceived 1)
  let peer := { peer with messagesReceived }
  let bytesReceived ← orPanic peer (checks.add peer.bytesReceived bytes)
  let peer := { peer with bytesReceived }.updateLastSeen now
  pure { peer with failedAttempts := 0, lastError := none }

def recordFailure (checks : OverflowChecks) (error : String) (peer : PeerInfo Address) :
    Update (PeerInfo Address) (PeerInfo Address) := do
  let failedAttempts ← orPanic peer (checks.add32 peer.failedAttempts 1)
  let peer := { peer with failedAttempts, lastError := some error }
  pure (if 5 < failedAttempts then { peer with state := .failed } else peer)

def failPeer (checks : OverflowChecks) (error : String) (peer : PeerInfo Address) :
    Update (PeerInfo Address) (PeerInfo Address) :=
  recordFailure checks error { peer with state := .failed }

/-- `*counter += 1` for a counter of the statistics. -/
def increment (checks : OverflowChecks) (get : BroadcastStats → UInt64)
    (set : BroadcastStats → UInt64 → BroadcastStats) (s : NetworkState Address) :
    Update (NetworkState Address) (NetworkState Address) := do
  let n ← orPanic s (checks.add (get s.stats) 1)
  pure { s with stats := set s.stats n }

/-- The section of the statistics that follows a message that has been received. -/
def countReceived (checks : OverflowChecks) (bytes : UInt64) (s : NetworkState Address) :
    Update (NetworkState Address) (NetworkState Address) := do
  let s ← increment checks (·.totalMessagesReceived)
    (fun stats n => { stats with totalMessagesReceived := n }) s
  let totalBytesReceived ← orPanic s (checks.add s.stats.totalBytesReceived bytes)
  pure { s with stats := { s.stats with totalBytesReceived } }

def countSent (checks : OverflowChecks) (s : NetworkState Address) :
    Update (NetworkState Address) (NetworkState Address) :=
  increment checks (·.totalMessagesSent) (fun stats n => { stats with totalMessagesSent := n }) s

variable [DecidableEq Address] (checks : OverflowChecks) (texts : Texts Address)

/-- `if let Some(peer) = peers.get_mut(address)`, for a body that updates the peer. -/
def withPeer (address : Address) (body : PeerInfo Address → Update (PeerInfo Address) (PeerInfo Address))
    (s : NetworkState Address) : Update (NetworkState Address) (NetworkState Address) :=
  match s.peers.lookup address with
  | none => pure s
  | some peer => (body peer).within fun peer => { s with peers := s.peers.insert address peer }

def failConnection (address : Address) (error : String) (s : NetworkState Address) :
    Update (NetworkState Address) (NetworkState Address) :=
  if address ∈ s.peers then do
    let s ← withPeer address (failPeer checks error) s
    increment checks (·.connectionFailures) (fun stats n => { stats with connectionFailures := n }) s
  else pure s

def completeHandshake (address : Address) (message : NetworkMessage) (s : NetworkState Address) :
    Update (NetworkState Address) (NetworkState Address) :=
  match message with
  | .handshake validatorId version capabilities =>
      if address ∈ s.peers then do
        let s ← withPeer address (fun peer => pure (peer.greet validatorId version capabilities)) s
        increment checks (·.connectedPeerCount)
          (fun stats n => { stats with connectedPeerCount := n }) s
      else pure s
  | _ => pure s

def takeResponse (address : Address) (response : ReadOutcome) (s : NetworkState Address) :
    Update (NetworkState Address) (NetworkState Address) :=
  match response with
  | .data (b :: bytes) =>
      match NetworkMessage.fromBytes texts (b :: bytes) with
      | .error _ => pure s
      | .ok message => completeHandshake checks address message s
  | _ => withPeer address (failPeer checks "Handshake response timeout") s

/-- A message under both of its locks, if no other task comes between them. -/
def receive (address : Address) (bytes : Bytes) (now : Instant) (s : NetworkState Address) :
    Update (NetworkState Address) (NetworkState Address) :=
  match NetworkMessage.fromBytes texts bytes with
  | .error _ => pure s
  | .ok _ => do
      let s ← withPeer address (recordReceived checks (UInt64.ofNat bytes.length) now) s
      countReceived checks (UInt64.ofNat bytes.length) s

def addPeer (address : Address) (now : Instant) (s : NetworkState Address) :
    Update (NetworkState Address) (NetworkState Address) :=
  increment checks (·.peerCount) (fun stats n => { stats with peerCount := n })
    { s with peers := s.peers.insert address (.new address now) }

end Locked

/-! ## The steps of each task -/

/-- What a task finds when it has the lock: the clock as it reads it for each peer, the order in which
it visits the peers, and the time since its start. -/
structure LockReadings (Address : Type) where
  now : Address → Instant
  order : Enumeration Address
  durationMs : UInt64

inductive ConnectPhase where
  | begun
  | connecting
  | writing
  | reading
  deriving DecidableEq

inductive ConnectStepIo where
  | locked
  | connected (outcome : Outcome)
  | wrote (outcome : Except String Unit)
  | answered (response : ReadOutcome)

/-- A send that has recorded its frame with the peer has the lock of the statistics to wait for. -/
inductive SendStage where
  | sending (phase : SendPhase)
  | counting (latencyMs : UInt64) (length : ℕ)

/-- One of the sends of a broadcast; without a stage it has panicked. -/
structure SendTask (Address : Type) where
  address : Address
  stage : Option SendStage

def SendTask.spawned (address : Address) : SendTask Address :=
  ⟨address, some (.sending (.attempt 0 none))⟩

def SendTask.ended (task : SendTask Address) : Bool :=
  match task.stage with
  | none => true
  | some (.sending (.finished _)) => true
  | some _ => false

structure BroadcastResult where
  totalPeers : ℕ
  successful : ℕ
  failed : ℕ
  avgLatencyMs : UInt64
  minLatencyMs : UInt64
  maxLatencyMs : UInt64
  totalBytesSent : UInt64
  durationMs : UInt64
  deriving DecidableEq

/-- The local variables of `broadcast_message`, which it collects the results in. -/
structure BroadcastTally where
  successful : ℕ
  failed : ℕ
  totalLatency : UInt64
  minLatency : UInt64
  maxLatency : UInt64
  totalBytesSent : UInt64

namespace BroadcastTally

def zero : BroadcastTally := ⟨0, 0, 0, .ofNat (2 ^ 64 - 1), 0, 0⟩

/-- A send that has not finished has panicked: the results are collected when all have ended. -/
def collect (checks : OverflowChecks) (tally : BroadcastTally) (task : SendTask Address) :
    Option BroadcastTally :=
  match task.stage with
  | some (.sending (.finished (.ok (latencyMs, bytesSent)))) => do
      let totalLatency ← checks.add tally.totalLatency latencyMs
      let totalBytesSent ← checks.add tally.totalBytesSent bytesSent
      some { tally with
        successful := tally.successful + 1
        totalLatency
        minLatency := min tally.minLatency latencyMs
        maxLatency := max tally.maxLatency latencyMs
        totalBytesSent }
  | _ => some { tally with failed := tally.failed + 1 }

def result (totalPeers : ℕ) (durationMs : UInt64) (tally : BroadcastTally) : BroadcastResult where
  totalPeers
  successful := tally.successful
  failed := tally.failed
  avgLatencyMs :=
    if 0 < tally.successful then tally.totalLatency / .ofNat tally.successful else 0
  minLatencyMs := if tally.minLatency = .ofNat (2 ^ 64 - 1) then 0 else tally.minLatency
  maxLatencyMs := tally.maxLatency
  totalBytesSent := tally.totalBytesSent
  durationMs

end BroadcastTally

/-- The update of the statistics at the end of `broadcast_message`. -/
def BroadcastStats.recordBroadcast (checks : OverflowChecks) (result : BroadcastResult)
    (stats : BroadcastStats) : Update BroadcastStats BroadcastStats := do
  let totalBroadcasts ← orPanic stats (checks.add stats.totalBroadcasts 1)
  let stats := { stats with totalBroadcasts }
  let successfulBroadcasts ← orPanic stats
    (checks.add stats.successfulBroadcasts (.ofNat result.successful))
  let stats := { stats with successfulBroadcasts }
  let failedBroadcasts ← orPanic stats (checks.add stats.failedBroadcasts (.ofNat result.failed))
  let stats := { stats with failedBroadcasts, avgBroadcastLatencyMs := result.avgLatencyMs }
  let totalBytesSent ← orPanic stats (checks.add stats.totalBytesSent result.totalBytesSent)
  pure { stats with totalBytesSent }

inductive NetworkOp (Address : Type) where
  | addPeer (address : Address)
  | removePeer (address : Address)
  | connectPeer (address : Address)
  | disconnectPeer (address : Address)
  | handlePeerConnection (address : Address)
  | cleanupStalePeers
  | reconnectFailedPeers
  | broadcastMessage (message : NetworkMessage)

/-- An operation that has not had the lock yet, or where it is since. A listener that has recorded a
message with its peer has the lock of the statistics to wait for. -/
inductive NetworkTask (Address : Type) where
  | begun (op : NetworkOp Address)
  | connecting (address : Address) (phase : ConnectPhase)
  | reconnecting (address : Address) (phase : ConnectPhase) (rest : List Address)
      (reconnected : ℕ)
  | listening (address : Address) (phase : ConnectionPhase)
  | counting (address : Address) (length : ℕ)
  | broadcasting (message : NetworkMessage) (sends : List (SendTask Address))

inductive NetworkIo (Address : Type) where
  | locked (readings : LockReadings Address)
  | connect (io : ConnectStepIo)
  | listen (io : ListenIo)
  | send (index : ℕ) (io : SendIo)

inductive NetworkAnswer where
  | result (result : Except CoreError Unit)
  | count (n : ℕ)
  | broadcast (result : BroadcastResult)

def PeerInfo.isStale (now : Instant) (peer : PeerInfo Address) : Bool :=
  300 * 10 ^ 9 < now - peer.lastSeen

variable [DecidableEq Address] (checks : OverflowChecks) (texts : Texts Address)
  (validatorId : Bytes)

def addPeer (address : Address) (readings : LockReadings Address) (s : NetworkState Address) :
    TaskStep (NetworkTask Address) NetworkAnswer (NetworkState Address) :=
  if address ∈ s.peers then
    .finished (.result (.error
      (.invalidData ("Peer " ++ texts.address address ++ " already exists")))) s
  else .finish (.result (.ok ())) (Locked.addPeer checks address (readings.now address) s)

def removePeer (address : Address) (s : NetworkState Address) :
    Except CoreError Unit × NetworkState Address :=
  if address ∈ s.peers then
    (.ok (), {
      peers := s.peers.erase address
      stats := { s.stats with peerCount := Saturating.sub64 s.stats.peerCount 1 } })
  else (.error (.invalidData ("Peer " ++ texts.address address ++ " not found")), s)

def disconnectPeer (address : Address) (s : NetworkState Address) :
    Except CoreError Unit × NetworkState Address :=
  match s.peers.lookup address with
  | none => (.error (.invalidData ("Peer " ++ texts.address address ++ " not found")), s)
  | some peer =>
      (.ok (), {
        peers := s.peers.insert address { peer with state := .disconnected }
        stats :=
          if peer.state = .connected then
            { s.stats with connectedPeerCount := Saturating.sub64 s.stats.connectedPeerCount 1 }
          else s.stats })

def cleanupStalePeers (now : Address → Instant) (s : NetworkState Address) :
    ℕ × NetworkState Address :=
  let peers := HashMap.retain s.peers fun address peer => !peer.isStale (now address)
  (s.peers.len - peers.len,
    { peers, stats := { s.stats with peerCount := .ofNat peers.len } })

/-- One step of `connect_peer`. -/
def connectStep (address : Address) (phase : ConnectPhase) (io : ConnectStepIo)
    (s : NetworkState Address) :
    Option (TaskStep ConnectPhase (Except CoreError Unit) (NetworkState Address)) :=
  match phase, io with
  | .begun, .locked =>
      match s.peers.lookup address with
      | none => some (.finished (.error
          (.invalidData ("Peer " ++ texts.address address ++ " not found"))) s)
      | some peer => some (.running .connecting
          { s with peers := s.peers.insert address { peer with state := .connecting } })
  | .connecting, .connected (.error text) =>
      some (.finish (.error (.invalidData ("Failed to connect to peer: " ++ text)))
        (Locked.failConnection checks address ("Connection failed: " ++ text) s))
  | .connecting, .connected .timeout =>
      some (.finish (.error (.invalidData "Connection timeout"))
        (Locked.failConnection checks address "Connection timeout" s))
  | .connecting, .connected .ok =>
      match (ownHandshake validatorId).toBytes texts with
      | .error e => some (.finished (.error e) s)
      | .ok _ => some (.running .writing s)
  | .writing, .wrote (.error text) =>
      some (.finish (.error (.invalidData ("Failed to send handshake: " ++ text)))
        (Locked.withPeer address
          (Locked.failPeer checks ("Handshake write failed: " ++ text)) s))
  | .writing, .wrote (.ok ()) => some (.running .reading s)
  | .reading, .answered response =>
      some (.finish (.ok ()) (Locked.takeResponse checks texts address response s))
  | _, _ => none

/-- The next peer that `reconnect_failed_peers` connects to, if there is one. -/
def nextReconnect (rest : List Address) (reconnected : ℕ) (s : NetworkState Address) :
    TaskStep (NetworkTask Address) NetworkAnswer (NetworkState Address) :=
  match rest with
  | [] => .finished (.count reconnected) s
  | address :: rest => .running (.reconnecting address .begun rest reconnected) s

def reconnectStep (address : Address) (phase : ConnectPhase) (rest : List Address)
    (reconnected : ℕ) (io : ConnectStepIo) (s : NetworkState Address) :
    Option (TaskStep (NetworkTask Address) NetworkAnswer (NetworkState Address)) :=
  (connectStep checks texts validatorId address phase io s).map fun
    | .running phase s => .running (.reconnecting address phase rest reconnected) s
    | .finished (.ok ()) s => nextReconnect rest (reconnected + 1) s
    | .finished (.error _) s => nextReconnect rest reconnected s
    | .panicked s => .panicked s

/-- The phase after a step, which may have been the last one. -/
def ConnectionPhase.onward (s : NetworkState Address) :
    ConnectionPhase → TaskStep ConnectionPhase (Except CoreError Unit) (NetworkState Address)
  | .finished result => .finished result s
  | phase => .running phase s

/-- One step of `handle_peer_connection`, of which only the count of a message may panic. A message
with both of its locks is one step here, as it is where no other task comes between them. -/
def listenStep (address : Address) (phase : ConnectionPhase) (io : ListenIo)
    (s : NetworkState Address) :
    Option (TaskStep ConnectionPhase (Except CoreError Unit) (NetworkState Address)) :=
  match phase, io with
  | .receiving, .read (.data (b :: bytes)) now =>
      some (.proceed .receiving (Locked.receive checks texts address (b :: bytes) now s))
  | _, _ => (listen checks texts address phase io s).map fun (phase, _, s) => phase.onward s

/-- A message that a listener has read, under the lock of the peers. -/
def receiveStep (address : Address) (bytes : Bytes) (now : Instant) (s : NetworkState Address) :
    TaskStep (NetworkTask Address) NetworkAnswer (NetworkState Address) :=
  match NetworkMessage.fromBytes texts bytes with
  | .error _ => .running (.listening address .receiving) s
  | .ok _ => .proceed (.counting address bytes.length)
      (Locked.withPeer address (Locked.recordReceived checks (.ofNat bytes.length) now) s)

/-- One step of `handle_peer_connection` among other tasks, which may come between the two locks of
a message. -/
def listeningStep (address : Address) (phase : ConnectionPhase) (io : ListenIo)
    (s : NetworkState Address) :
    Option (TaskStep (NetworkTask Address) NetworkAnswer (NetworkState Address)) :=
  match phase, io with
  | .receiving, .read (.data (b :: bytes)) now =>
      some (receiveStep checks texts address (b :: bytes) now s)
  | _, _ =>
      (listenStep checks texts address phase io s).map (.map (.listening address) .result)

/-- The input is what a send waits for in the phase. -/
def SendPhase.awaits : SendPhase → SendIo → Bool
  | .attempt _ _, .resumed => true
  | .connecting _ _, .connected _ => true
  | .writing _ _, .wrote _ _ _ => true
  | _, _ => false

/-- The send after an update, which may have panicked. -/
def SendStage.proceed (stage : SendStage) :
    Update (NetworkState Address) (NetworkState Address) →
      Option SendStage × NetworkState Address
  | .ok s => (some stage, s)
  | .error s => (none, s)

/-- One step of a send. A panic leaves nothing written, but where the frame has gone out. -/
def sendStep (address : Address) (message : NetworkMessage) (maxRetries : ℕ) (stage : SendStage)
    (io : SendIo) (s : NetworkState Address) :
    Option (Option SendStage × NetworkState Address) :=
  match stage, io with
  | .sending (.writing _ frame), .wrote .ok latencyMs now =>
      some (SendStage.proceed (.counting latencyMs frame.length)
        (Locked.withPeer address
          (Locked.recordSent checks (.ofNat frame.length) latencyMs now) s))
  | .counting latencyMs length, .resumed =>
      some (SendStage.proceed (.sending (.finished (.ok (latencyMs, .ofNat length))))
        (Locked.countSent checks s))
  | .sending phase, io =>
      if phase.awaits io then
        match send checks texts address message maxRetries phase io s with
        | some (phase, s) => some (some (.sending phase), s)
        | none => some (none, s)
      else none
  | .counting _ _, _ => none

def connectedPeers (order : Enumeration Address) (s : NetworkState Address) : List Address :=
  order.arrange (s.peers.keys.filter fun address =>
    (s.peers.lookup address).any fun peer => peer.state = .connected)

/-- The start of `broadcast_message`, which spawns its sends. -/
def startBroadcast (message : NetworkMessage) (readings : LockReadings Address)
    (s : NetworkState Address) :
    TaskStep (NetworkTask Address) NetworkAnswer (NetworkState Address) :=
  match connectedPeers readings.order s with
  | [] => .finished (.broadcast ⟨0, 0, 0, 0, 0, 0, 0, readings.durationMs⟩) s
  | address :: rest => .running (.broadcasting message ((address :: rest).map .spawned)) s

/-- The end of `broadcast_message`, once all its sends have ended. -/
def concludeBroadcast (sends : List (SendTask Address)) (durationMs : UInt64)
    (s : NetworkState Address) :
    TaskStep (NetworkTask Address) NetworkAnswer (NetworkState Address) :=
  match sends.foldlM (BroadcastTally.collect checks) .zero with
  | none => .panicked s
  | some tally =>
      let result := tally.result sends.length durationMs
      .finish (.broadcast result)
        ((s.stats.recordBroadcast checks result).within fun stats => { s with stats })

def broadcastSend (maxRetries : ℕ) (message : NetworkMessage) (sends : List (SendTask Address))
    (index : ℕ) (io : SendIo) (s : NetworkState Address) :
    Option (TaskStep (NetworkTask Address) NetworkAnswer (NetworkState Address)) := do
  let task ← sends[index]?
  let stage ← task.stage
  let (stage, s) ← sendStep checks texts task.address message maxRetries stage io s
  some (.running (.broadcasting message (sends.set index { task with stage })) s)

/-- The first step of an operation. -/
def beginStep (op : NetworkOp Address) (readings : LockReadings Address)
    (s : NetworkState Address) :
    Option (TaskStep (NetworkTask Address) NetworkAnswer (NetworkState Address)) :=
  match op with
  | .addPeer address => some (addPeer checks texts address readings s)
  | .removePeer address =>
      let (result, s) := removePeer texts address s
      some (.finished (.result result) s)
  | .connectPeer address =>
      (connectStep checks texts validatorId address .begun .locked s).map
        (.map (.connecting address) .result)
  | .disconnectPeer address =>
      let (result, s) := disconnectPeer texts address s
      some (.finished (.result result) s)
  | .handlePeerConnection address =>
      match openConnection texts validatorId with
      | .finished result => some (.finished (.result result) s)
      | phase => some (.running (.listening address phase) s)
  | .cleanupStalePeers =>
      let (removed, s) := cleanupStalePeers readings.now s
      some (.finished (.count removed) s)
  | .reconnectFailedPeers => some (nextReconnect (failedPeers readings.order s) 0 s)
  | .broadcastMessage message => some (startBroadcast message readings s)

def networkStep (maxRetries : ℕ) (task : NetworkTask Address) (io : NetworkIo Address)
    (s : NetworkState Address) :
    Option (TaskStep (NetworkTask Address) NetworkAnswer (NetworkState Address)) :=
  match task, io with
  | .begun op, .locked readings => beginStep checks texts validatorId op readings s
  | .connecting address phase, .connect io =>
      (connectStep checks texts validatorId address phase io s).map
        (.map (.connecting address) .result)
  | .reconnecting address phase rest reconnected, .connect io =>
      reconnectStep checks texts validatorId address phase rest reconnected io s
  | .listening address phase, .listen io => listeningStep checks texts address phase io s
  | .counting address length, .locked _ =>
      some (.proceed (.listening address .receiving)
        (Locked.countReceived checks (.ofNat length) s))
  | .broadcasting message sends, .send index io =>
      broadcastSend checks texts maxRetries message sends index io s
  | .broadcasting _ sends, .locked readings =>
      if sends.all SendTask.ended then
        some (concludeBroadcast checks sends readings.durationMs s)
      else none
  | _, _ => none

/-- The operations of a manager, any number of which may be under way. -/
def networkTasks (maxRetries : ℕ) :
    TaskSystem (NetworkState Address) (NetworkIo Address) (NetworkOp Address)
      (NetworkTask Address) NetworkAnswer where
  initial := .begun
  resume := networkStep checks texts validatorId maxRetries

end ValidatorSync

end SilverNetwork
