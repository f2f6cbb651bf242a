import SilverNetwork.Foundations.LockedObject
import SilverNetwork.Model.ValidatorEnvelope
import SilverNetwork.Model.ValidatorTasks

/-! The network of the validators down to its locks. The peers and the statistics have one each, and
a connection holds a permit of the semaphore besides. What a call waits for in the outside world is
an argument; it holds no lock then. -/

namespace SilverNetwork

namespace ValidatorSync

/-- The permits of `connection_semaphore`. -/
def connectionPermits : ℕ := 100

/-- A call for a permit names the one that it will get. -/
inductive NetworkLock where
  | permit (number : Fin connectionPermits)
  | peers
  | stats
  deriving DecidableEq, Repr

variable {Address : Type}

def PeerInfo.isHealthy (now : Instant) (peer : PeerInfo Address) : Bool :=
  peer.state = .connected && !peer.isStale now

/-- The outcomes of one attempt to send, and the clock at its end. -/
structure AttemptIo where
  connect : Outcome
  write : Outcome
  latencyMs : UInt64
  now : Instant

/-- The calls of a manager. A broadcast is the read of its peers, a call for each send and the record
of its result; the reconnection of the failed peers is the read of them and a call for each. -/
inductive LockedOp (Address : Type) where
  | addPeer (address : Address) (now : Instant)
  | removePeer (address : Address)
  | connectPeer (permit : Fin connectionPermits) (address : Address) (io : ConnectIo)
  | disconnectPeer (address : Address)
  | handlePeerConnection (permit : Fin connectionPermits) (address : Address) (wrote : Except String Unit)
      (response : ReadOutcome) (reads : List (Bytes × Instant))
  | connectedPeers (order : Enumeration Address)
  | sendMessage (address : Address) (message : NetworkMessage) (attempts : List AttemptIo)
  | recordBroadcast (result : BroadcastResult)
  | cleanupStalePeers (now : Address → Instant)
  | failedPeers (order : Enumeration Address)
  | getPeerCount
  | getConnectedPeerCount
  | getHealthyPeerCount (now : Instant)
  | getPeerInfo (address : Address)
  | getAllPeers
  | getHealthyPeers (now : Instant)
  | getStats
  | resetStats

inductive LockedAnswer (Address : Type) where
  | done
  | result (result : Except CoreError Unit)
  | sent (result : Except CoreError (UInt64 × UInt64))
  | addresses (addresses : List Address)
  | count (n : ℕ)
  | peer (result : Except CoreError (PeerInfo Address))
  | peers (peers : List (PeerInfo Address))
  | stats (stats : BroadcastStats)

abbrev NetworkProgram (Address α : Type) : Type :=
  LockProgram (Guard NetworkLock) (NetworkState Address) α

namespace NetworkProgram

open LockProgram

/-- An update that may panic half way, which leaves what it has written until then. -/
def write (f : NetworkState Address → Update (NetworkState Address) (NetworkState Address)) :
    NetworkProgram Address Unit :=
  .step (fun s => some (f s).left) fun s =>
    match f s with
    | .ok _ => .done ()
    | .error _ => .step (fun _ => none) fun _ => .done ()

def countPeers (p : PeerInfo Address → Bool) (s : NetworkState Address) : ℕ :=
  (s.peers.values.filter p).length

/-- A read of the peers under their lock. -/
def readPeers {α : Type} (f : NetworkState Address → α) : NetworkProgram Address α :=
  guarded (.read .peers) (gets f)

variable [DecidableEq Address] (checks : OverflowChecks) (texts : Texts Address)
  (validatorId : Bytes)

def increment (get : BroadcastStats → UInt64) (set : BroadcastStats → UInt64 → BroadcastStats) :
    NetworkProgram Address Unit :=
  guarded (.write .stats) (write (Locked.increment checks get set))

def notFound (address : Address) : CoreError :=
  .invalidData ("Peer " ++ texts.address address ++ " not found")

def addPeer (address : Address) (now : Instant) :
    NetworkProgram Address (Except CoreError Unit) :=
  guarded (.write .peers) do
    let known ← gets fun s => decide (address ∈ s.peers)
    if known then
      pure (.error (.invalidData ("Peer " ++ texts.address address ++ " already exists")))
    else do
      update fun s => some { s with peers := s.peers.insert address (.new address now) }
      increment checks (·.peerCount) fun stats n => { stats with peerCount := n }
      pure (.ok ())

def removePeer (address : Address) : NetworkProgram Address (Except CoreError Unit) :=
  guarded (.write .peers) do
    let known ← gets fun s => decide (address ∈ s.peers)
    if known then do
      update fun s => some { s with peers := s.peers.erase address }
      guarded (.write .stats) (update fun s => some { s with
        stats := { s.stats with peerCount := Saturating.sub64 s.stats.peerCount 1 } })
      pure (.ok ())
    else pure (.error (notFound texts address))

/-- The end of a connection in the statistics. -/
def countDisconnected (peer : PeerInfo Address) : NetworkProgram Address Unit :=
  if peer.state = .connected then
    guarded (.write .stats) (update fun s => some { s with
      stats := { s.stats with
        connectedPeerCount := Saturating.sub64 s.stats.connectedPeerCount 1 } })
  else pure ()

def disconnectPeer (address : Address) : NetworkProgram Address (Except CoreError Unit) :=
  guarded (.write .peers) do
    let found ← gets fun s => s.peers.lookup address
    match found with
    | none => pure (.error (notFound texts address))
    | some peer => do
        countDisconnected peer
        update fun s => some
          { s with peers := s.peers.insert address { peer with state := .disconnected } }
        pure (.ok ())

def cleanupStalePeers (now : Address → Instant) : NetworkProgram Address ℕ :=
  guarded (.write .peers) do
    let initialCount ← gets fun s => s.peers.len
    update fun s => some { s with
      peers := HashMap.retain s.peers fun address peer => !peer.isStale (now address) }
    let remaining ← gets fun s => s.peers.len
    guarded (.write .stats) (update fun s => some { s with
      stats := { s.stats with peerCount := .ofNat remaining } })
    pure (initialCount - remaining)

/-! ## Connections -/

def failConnection (address : Address) (error : String) : NetworkProgram Address Unit :=
  guarded (.write .peers) do
    let known ← gets fun s => decide (address ∈ s.peers)
    if known then do
      write (Locked.withPeer address (Locked.failPeer checks error))
      increment checks (·.connectionFailures) fun stats n => { stats with connectionFailures := n }
    else pure ()

def failPeer (address : Address) (error : String) : NetworkProgram Address Unit :=
  guarded (.write .peers) (write (Locked.withPeer address (Locked.failPeer checks error)))

def completeHandshake (address : Address) (message : NetworkMessage) :
    NetworkProgram Address Unit :=
  guarded (.write .peers) do
    let known ← gets fun s => decide (address ∈ s.peers)
    match known, message with
    | true, .handshake validatorId version capabilities => do
        write (Locked.withPeer address fun peer =>
          pure (peer.greet validatorId version capabilities))
        increment checks (·.connectedPeerCount)
          fun stats n => { stats with connectedPeerCount := n }
    | _, _ => pure ()

def takeResponse (address : Address) (response : ReadOutcome) : NetworkProgram Address Unit :=
  match response with
  | .data (b :: bytes) =>
      match NetworkMessage.fromBytes texts (b :: bytes) with
      | .error _ => pure ()
      | .ok message => completeHandshake checks address message
  | _ => failPeer checks address "Handshake response timeout"

def concludeConnect (address : Address) (io : ConnectIo) :
    NetworkProgram Address (Except CoreError Unit) :=
  match io.connect with
  | .error text => do
      failConnection checks address ("Connection failed: " ++ text)
      pure (.error (.invalidData ("Failed to connect to peer: " ++ text)))
  | .timeout => do
      failConnection checks address "Connection timeout"
      pure (.error (.invalidData "Connection timeout"))
  | .ok =>
      match (ownHandshake validatorId).toBytes texts with
      | .error e => pure (.error e)
      | .ok _ =>
          match io.write with
          | .error text => do
              failPeer checks address ("Handshake write failed: " ++ text)
              pure (.error (.invalidData ("Failed to send handshake: " ++ text)))
          | .ok () => do
              takeResponse checks texts address io.response
              pure (.ok ())

def connectPeer (permit : Fin connectionPermits) (address : Address) (io : ConnectIo) :
    NetworkProgram Address (Except CoreError Unit) :=
  guarded (.write (.permit permit)) do
    let known ← guarded (.write .peers) do
      let found ← gets fun s => s.peers.lookup address
      match found with
      | none => pure false
      | some peer => do
          update fun s => some
            { s with peers := s.peers.insert address { peer with state := .connecting } }
          pure true
    if known then concludeConnect checks texts validatorId address io
    else pure (.error (notFound texts address))

/-- One read of the message loop, without the read itself. -/
def receive (address : Address) (bytes : Bytes) (now : Instant) : NetworkProgram Address Unit :=
  match NetworkMessage.fromBytes texts bytes with
  | .error _ => pure ()
  | .ok _ => do
      guarded (.write .peers) (write (Locked.withPeer address
        (Locked.recordReceived checks (UInt64.ofNat bytes.length) now)))
      guarded (.write .stats) do
        write (Locked.increment checks (·.totalMessagesReceived)
          fun stats n => { stats with totalMessagesReceived := n })
        update fun s => (checks.add s.stats.totalBytesReceived (UInt64.ofNat bytes.length)).map
          fun totalBytesReceived => { s with stats := { s.stats with totalBytesReceived } }

/-- The message loop, and the end of the connection where no more is read. -/
def receiveAll (address : Address) : List (Bytes × Instant) → NetworkProgram Address Unit
  | [] => guarded (.write .peers) (update (hangUp address))
  | (bytes, now) :: rest => do
      receive checks texts address bytes now
      receiveAll address rest

def handlePeerConnection (permit : Fin connectionPermits) (address : Address) (wrote : Except String Unit)
    (response : ReadOutcome) (reads : List (Bytes × Instant)) :
    NetworkProgram Address (Except CoreError Unit) :=
  guarded (.write (.permit permit)) do
    match (ownHandshake validatorId).toBytes texts, wrote, response with
    | .error e, _, _ => pure (.error e)
    | .ok _, .error text, _ => pure (.error (.invalidData ("Failed to send handshake: " ++ text)))
    | .ok _, .ok (), .timeout => pure (.error (.invalidData "Handshake timeout"))
    | .ok _, .ok (), .error text =>
        pure (.error (.invalidData ("Failed to read handshake: " ++ text)))
    | .ok _, .ok (), .data [] => pure (.error (.invalidData "Peer closed connection"))
    | .ok _, .ok (), .data (b :: bytes) =>
        match NetworkMessage.fromBytes texts (b :: bytes) with
        | .error e => pure (.error e)
        | .ok message => do
            guarded (.write .peers) (update (acceptHandshake address message))
            receiveAll checks texts address reads
            pure (.ok ())

/-! ## Sending -/

/-- The block of one attempt, which takes no lock. -/
def attempt (message : NetworkMessage) (io : AttemptIo) : Except CoreError UInt64 :=
  match message.toBytes texts with
  | .error e => .error (.invalidData ("Failed to serialize message: " ++ texts.coreError e))
  | .ok frame =>
      if maxMessageSize < frame.length then
        .error (.invalidData
          ("Message too large: " ++ toString frame.length ++ " bytes (max 10MB)"))
      else do
        io.connect.check "Connection timeout" "Failed to connect: "
        io.write.check "Send timeout" "Failed to send: "
        pure (UInt64.ofNat frame.length)

/-- `send_message_with_retry_real`, with the outcomes of as many attempts as it may make. -/
def sendMessage (address : Address) (message : NetworkMessage) :
    List AttemptIo → Option CoreError →
      NetworkProgram Address (Except CoreError (UInt64 × UInt64))
  | [], lastError => do
      guarded (.write .peers) (write (Locked.withPeer address (Locked.recordFailure checks
        ((lastError.map texts.coreError).getD "Unknown error"))))
      pure (.error (lastError.getD (.invalidData "Unknown send error")))
  | io :: rest, _ =>
      match attempt texts message io with
      | .ok bytes => do
          guarded (.write .peers) (write (Locked.withPeer address
            (Locked.recordSent checks bytes io.latencyMs io.now)))
          increment checks (·.totalMessagesSent) fun stats n => { stats with totalMessagesSent := n }
          pure (.ok (io.latencyMs, bytes))
      | .error e => do
          increment checks (·.messageRetries) fun stats n => { stats with messageRetries := n }
          sendMessage address message rest (some e)

def recordBroadcast (result : BroadcastResult) : NetworkProgram Address Unit :=
  guarded (.write .stats) (write fun s =>
    (s.stats.recordBroadcast checks result).within fun stats => { s with stats })

/-! ## Views -/

def getPeerInfo (address : Address) : NetworkProgram Address (Except CoreError (PeerInfo Address)) :=
  readPeers fun s =>
    match s.peers.lookup address with
    | none => .error (notFound texts address)
    | some peer => .ok peer

/-- The statistics are read first, and the two counts each under a guard of its own. -/
def getStats : NetworkProgram Address BroadcastStats := do
  let stats ← guarded (.read .stats) (gets NetworkState.stats)
  let peerCount ← readPeers fun s => UInt64.ofNat s.peers.len
  let connectedPeerCount ← readPeers fun s =>
    UInt64.ofNat (countPeers (fun peer => peer.state = .connected) s)
  pure { stats with peerCount, connectedPeerCount }

def resetStats : NetworkProgram Address Unit :=
  guarded (.write .stats) (update fun s => some { s with stats := .zero })

end NetworkProgram

variable [DecidableEq Address] (checks : OverflowChecks) (texts : Texts Address)
  (validatorId : Bytes)

def LockedOp.program : LockedOp Address → NetworkProgram Address (LockedAnswer Address)
  | .addPeer address now => .result <$> NetworkProgram.addPeer checks texts address now
  | .removePeer address => .result <$> NetworkProgram.removePeer texts address
  | .connectPeer permit address io =>
      .result <$> NetworkProgram.connectPeer checks texts validatorId permit address io
  | .disconnectPeer address => .result <$> NetworkProgram.disconnectPeer texts address
  | .handlePeerConnection permit address wrote response reads =>
      .result <$> NetworkProgram.handlePeerConnection checks texts validatorId permit address wrote
        response reads
  | .connectedPeers order =>
      .addresses <$> NetworkProgram.readPeers (ValidatorSync.connectedPeers order)
  | .sendMessage address message attempts =>
      .sent <$> NetworkProgram.sendMessage checks texts address message attempts none
  | .recordBroadcast result => (fun _ => .done) <$> NetworkProgram.recordBroadcast checks result
  | .cleanupStalePeers now => .count <$> NetworkProgram.cleanupStalePeers now
  | .failedPeers order => .addresses <$> NetworkProgram.readPeers (ValidatorSync.failedPeers order)
  | .getPeerCount => .count <$> NetworkProgram.readPeers fun s => s.peers.len
  | .getConnectedPeerCount =>
      .count <$> NetworkProgram.readPeers
        (NetworkProgram.countPeers fun peer => peer.state = .connected)
  | .getHealthyPeerCount now =>
      .count <$> NetworkProgram.readPeers (NetworkProgram.countPeers (PeerInfo.isHealthy now))
  | .getPeerInfo address => .peer <$> NetworkProgram.getPeerInfo texts address
  | .getAllPeers => .peers <$> NetworkProgram.readPeers fun s => s.peers.values
  | .getHealthyPeers now =>
      .peers <$> NetworkProgram.readPeers fun s => s.peers.values.filter (PeerInfo.isHealthy now)
  | .getStats => .stats <$> NetworkProgram.getStats
  | .resetStats => (fun _ => .done) <$> NetworkProgram.resetStats

/-- Nothing happens to the manager by itself. -/
def lockedNetwork : LockedObject (Guard NetworkLock) (NetworkState Address) Empty
    (LockedOp Address) (LockedAnswer Address) where
  excludes := Guard.excludes
  program := LockedOp.program checks texts validatorId
  elapse := fun _ s => s

end ValidatorSync

end SilverNetwork
