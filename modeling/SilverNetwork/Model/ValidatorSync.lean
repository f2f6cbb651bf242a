import SilverNetwork.Foundations.HashMap
import SilverNetwork.Foundations.Machine
import SilverNetwork.Foundations.Overflow
import SilverNetwork.Model.Platform
import SilverNetwork.Model.ValidatorMessage

/-! The network of the validators. A task is cut at its input and output: what it does between
one outcome of the outside world and the next is one step, and an outcome is an argument. A step
that panics by overflow is `none`. -/

namespace SilverNetwork

namespace ValidatorSync

inductive ConnectionState where
  | disconnected
  | connecting
  | connected
  | failed
  | stale
  deriving DecidableEq, Repr

structure PeerInfo (Address : Type) where
  address : Address
  validatorId : Option Bytes
  lastSeen : Instant
  state : ConnectionState
  messagesSent : UInt64
  messagesReceived : UInt64
  latencyMs : UInt64
  failedAttempts : UInt32
  lastError : Option String
  version : UInt32
  capabilities : Bytes
  bytesSent : UInt64
  bytesReceived : UInt64
  deriving DecidableEq

variable {Address : Type}

namespace PeerInfo

def new (address : Address) (now : Instant) : PeerInfo Address where
  address := address
  validatorId := none
  lastSeen := now
  state := .disconnected
  messagesSent := 0
  messagesReceived := 0
  latencyMs := 0
  failedAttempts := 0
  lastError := none
  version := 1
  capabilities := []
  bytesSent := 0
  bytesReceived := 0

def updateLastSeen (now : Instant) (peer : PeerInfo Address) : PeerInfo Address :=
  { peer with lastSeen := now }

/-- The moving average of the latency; a peer without one takes the sample as it is. -/
def averageLatency (checks : OverflowChecks) (average sample : UInt64) : Option UInt64 :=
  if average = 0 then some sample
  else do
    let old ← checks.mul average 70
    let new ← checks.mul sample 30
    let sum ← checks.add old new
    some (sum / 100)

def recordSent (checks : OverflowChecks) (bytes latencyMs : UInt64) (now : Instant)
    (peer : PeerInfo Address) : Option (PeerInfo Address) := do
  let messagesSent ← checks.add peer.messagesSent 1
  let bytesSent ← checks.add peer.bytesSent bytes
  let latencyMs ← averageLatency checks peer.latencyMs latencyMs
  some ({ peer with messagesSent, bytesSent, latencyMs }.updateLastSeen now)

def recordReceived (checks : OverflowChecks) (bytes : UInt64) (now : Instant)
    (peer : PeerInfo Address) : Option (PeerInfo Address) := do
  let messagesReceived ← checks.add peer.messagesReceived 1
  let bytesReceived ← checks.add peer.bytesReceived bytes
  let peer := { peer with messagesReceived, bytesReceived }.updateLastSeen now
  some { peer with failedAttempts := 0, lastError := none }

def recordFailure (checks : OverflowChecks) (error : String) (peer : PeerInfo Address) :
    Option (PeerInfo Address) := do
  let failedAttempts ← checks.add32 peer.failedAttempts 1
  let peer := { peer with failedAttempts, lastError := some error }
  some (if 5 < failedAttempts then { peer with state := .failed } else peer)

def resetFailures (peer : PeerInfo Address) : PeerInfo Address :=
  { peer with failedAttempts := 0, lastError := none }

/-- What a handshake says of the peer, which is connected by it. -/
def greet (validatorId : Bytes) (version : UInt32) (capabilities : Bytes)
    (peer : PeerInfo Address) : PeerInfo Address :=
  { peer with
    validatorId := some validatorId
    version
    capabilities
    state := .connected }.resetFailures

end PeerInfo

/-- What is recorded on a peer that a manager holds. -/
inductive RecordEvent where
  | sent (bytes latencyMs : UInt64) (now : Instant)
  | received (bytes : UInt64) (now : Instant)
  | failure (error : String)
  | resetFailures

def PeerInfo.record (checks : OverflowChecks) (peer : PeerInfo Address) :
    RecordEvent → Option (PeerInfo Address)
  | .sent bytes latencyMs now => peer.recordSent checks bytes latencyMs now
  | .received bytes now => peer.recordReceived checks bytes now
  | .failure error => peer.recordFailure checks error
  | .resetFailures => some peer.resetFailures

def recordMachine (Address : Type) (checks : OverflowChecks) :
    Machine (PeerInfo Address) RecordEvent Unit where
  step peer event := (peer.record checks event).map fun peer => ((), peer)

abbrev RecordCall (Address : Type) := Call (PeerInfo Address) RecordEvent Unit

structure BroadcastStats where
  totalBroadcasts : UInt64
  successfulBroadcasts : UInt64
  failedBroadcasts : UInt64
  totalMessagesSent : UInt64
  totalMessagesReceived : UInt64
  avgBroadcastLatencyMs : UInt64
  totalBytesSent : UInt64
  totalBytesReceived : UInt64
  connectionFailures : UInt64
  messageRetries : UInt64
  peerCount : UInt64
  connectedPeerCount : UInt64
  deriving DecidableEq

/-- `BroadcastStats::default()`. -/
def BroadcastStats.zero : BroadcastStats := ⟨0, 0, 0, 0, 0, 0, 0, 0, 0, 0, 0, 0⟩

/-- What the tasks of a manager share. -/
structure NetworkState (Address : Type) where
  peers : HashMap Address (PeerInfo Address)
  stats : BroadcastStats

/-! ## Outcomes of the outside world -/

/-- The outcome of a connection or of a write under a timeout. -/
inductive Outcome where
  | ok
  | error (text : String)
  | timeout
  deriving DecidableEq, Repr

/-- The outcome of a read; no bytes are the end of the stream. -/
inductive ReadOutcome where
  | data (bytes : Bytes)
  | error (text : String)
  | timeout
  deriving DecidableEq, Repr

/-- `HANDSHAKE` as both sides send it. -/
def ownHandshake (validatorId : Bytes) : NetworkMessage :=
  .handshake validatorId 1 [1, 2, 3, 4, 5, 6, 7]

variable [DecidableEq Address] (checks : OverflowChecks) (texts : Texts Address)

namespace NetworkState

/-- `if let Some(peer) = peers.get_mut(address)`, for a body that updates the peer. -/
def withPeer (address : Address) (body : PeerInfo Address → Option (PeerInfo Address))
    (s : NetworkState Address) : Option (NetworkState Address) :=
  match s.peers.lookup address with
  | none => some s
  | some peer => (body peer).map fun peer => { s with peers := s.peers.insert address peer }

end NetworkState

/-! ## The listener's side of a connection -/

inductive ConnectionPhase where
  | greeting
  | greeted
  | receiving
  | finished (result : Except CoreError Unit)

/-- The size of the buffer that the listener reads into. -/
def ConnectionPhase.bufferSize : ConnectionPhase → ℕ
  | .receiving => 10 * 1024 * 1024
  | _ => 4096

inductive ListenIo where
  | wrote (outcome : Except String Unit)
  | read (outcome : ReadOutcome) (now : Instant)

/-- A connection that has been accepted, up to the write of the own handshake. -/
def openConnection (validatorId : Bytes) : ConnectionPhase :=
  match (ownHandshake validatorId).toBytes texts with
  | .error e => .finished (.error e)
  | .ok _ => .greeting

def acceptHandshake (address : Address) (message : NetworkMessage) (s : NetworkState Address) :
    Option (NetworkState Address) :=
  match message with
  | .handshake validatorId version capabilities =>
      s.withPeer address fun peer => some (peer.greet validatorId version capabilities)
  | _ => some s

/-- What the message loop does with the bytes of one read. -/
def receive (address : Address) (bytes : Bytes) (now : Instant) (s : NetworkState Address) :
    Option (Option NetworkMessage × NetworkState Address) :=
  match NetworkMessage.fromBytes texts bytes with
  | .error _ => some (none, s)
  | .ok message => do
      let s ← s.withPeer address
        (PeerInfo.recordReceived checks (UInt64.ofNat bytes.length) now)
      let totalMessagesReceived ← checks.add s.stats.totalMessagesReceived 1
      let totalBytesReceived ← checks.add s.stats.totalBytesReceived (UInt64.ofNat bytes.length)
      some (some message,
        { s with stats := { s.stats with totalMessagesReceived, totalBytesReceived } })

/-- The end of the message loop. -/
def hangUp (address : Address) (s : NetworkState Address) : Option (NetworkState Address) :=
  s.withPeer address fun peer => some { peer with state := .disconnected }

/-- One step of `handle_peer_connection`, with the message that the loop decodes in it. -/
def listen (address : Address) (phase : ConnectionPhase) (io : ListenIo)
    (s : NetworkState Address) :
    Option (ConnectionPhase × Option NetworkMessage × NetworkState Address) :=
  match phase, io with
  | .greeting, .wrote (.ok ()) => some (.greeted, none, s)
  | .greeting, .wrote (.error text) =>
      some (.finished (.error (.invalidData ("Failed to send handshake: " ++ text))), none, s)
  | .greeted, .read .timeout _ =>
      some (.finished (.error (.invalidData "Handshake timeout")), none, s)
  | .greeted, .read (.error text) _ =>
      some (.finished (.error (.invalidData ("Failed to read handshake: " ++ text))), none, s)
  | .greeted, .read (.data []) _ =>
      some (.finished (.error (.invalidData "Peer closed connection")), none, s)
  | .greeted, .read (.data (b :: bytes)) _ =>
      match NetworkMessage.fromBytes texts (b :: bytes) with
      | .error e => some (.finished (.error e), none, s)
      | .ok message => (acceptHandshake address message s).map fun s => (.receiving, none, s)
  | .receiving, .read (.data (b :: bytes)) now =>
      (receive checks texts address (b :: bytes) now s).map fun (message, s) =>
        (.receiving, message, s)
  | .receiving, .read _ _ => (hangUp address s).map fun s => (.finished (.ok ()), none, s)
  | _, _ => none

/-- Step after step of `handle_peer_connection`, with the messages that the loop decodes. -/
def listenAll (address : Address) : List ListenIo → ConnectionPhase → NetworkState Address →
    Option (ConnectionPhase × List NetworkMessage × NetworkState Address)
  | [], phase, s => some (phase, [], s)
  | io :: ios, phase, s => do
      let (phase, message, s) ← listen checks texts address phase io s
      let (phase, messages, s) ← listenAll address ios phase s
      some (phase, message.toList ++ messages, s)

/-! ## Connecting to a peer -/

/-- The outcomes of `connect_peer`: of the connection, of the write of the handshake and of the
read of the answer. -/
structure ConnectIo where
  connect : Outcome
  write : Except String Unit
  response : ReadOutcome

/-- The peer fails, with a text and a count of its failures. -/
def failPeer (error : String) (peer : PeerInfo Address) : Option (PeerInfo Address) :=
  { peer with state := .failed }.recordFailure checks error

/-- A connection that fails is counted if the peer is known. -/
def failConnection (address : Address) (error : String) (s : NetworkState Address) :
    Option (NetworkState Address) :=
  if address ∈ s.peers then do
    let s ← s.withPeer address (failPeer checks error)
    let connectionFailures ← checks.add s.stats.connectionFailures 1
    some { s with stats := { s.stats with connectionFailures } }
  else some s

def completeHandshake (address : Address) (message : NetworkMessage) (s : NetworkState Address) :
    Option (NetworkState Address) :=
  match message with
  | .handshake validatorId version capabilities =>
      if address ∈ s.peers then do
        let s ← s.withPeer address fun peer => some (peer.greet validatorId version capabilities)
        let connectedPeerCount ← checks.add s.stats.connectedPeerCount 1
        some { s with stats := { s.stats with connectedPeerCount } }
      else some s
  | _ => some s

/-- What the read of the answer to the handshake leads to. -/
def takeResponse (address : Address) (response : ReadOutcome) (s : NetworkState Address) :
    Option (NetworkState Address) :=
  match response with
  | .data (b :: bytes) =>
      match NetworkMessage.fromBytes texts (b :: bytes) with
      | .error _ => some s
      | .ok message => completeHandshake checks address message s
  | _ => s.withPeer address (failPeer checks "Handshake response timeout")

/-- `connect_peer` from the connection on. -/
def concludeConnect (validatorId : Bytes) (address : Address) (io : ConnectIo)
    (s : NetworkState Address) : Option (Except CoreError Unit × NetworkState Address) :=
  match io.connect with
  | .error text =>
      (failConnection checks address ("Connection failed: " ++ text) s).map fun s =>
        (.error (.invalidData ("Failed to connect to peer: " ++ text)), s)
  | .timeout =>
      (failConnection checks address "Connection timeout" s).map fun s =>
        (.error (.invalidData "Connection timeout"), s)
  | .ok =>
      match (ownHandshake validatorId).toBytes texts with
      | .error e => some (.error e, s)
      | .ok _ =>
          match io.write with
          | .error text =>
              (s.withPeer address (failPeer checks ("Handshake write failed: " ++ text))).map
                fun s => (.error (.invalidData ("Failed to send handshake: " ++ text)), s)
          | .ok () => (takeResponse checks texts address io.response s).map fun s => (.ok (), s)

/-- The semaphore that bounds the number of connections is never closed. -/
def connectPeer (validatorId : Bytes) (address : Address) (io : ConnectIo)
    (s : NetworkState Address) : Option (Except CoreError Unit × NetworkState Address) :=
  match s.peers.lookup address with
  | none => some (.error (.invalidData ("Peer " ++ texts.address address ++ " not found")), s)
  | some peer =>
      concludeConnect checks texts validatorId address io
        { s with peers := s.peers.insert address { peer with state := .connecting } }

/-- The peers that have failed, but not too often, in the order of the traversal. -/
def failedPeers (order : Enumeration Address) (s : NetworkState Address) : List Address :=
  order.arrange (s.peers.keys.filter fun address =>
    (s.peers.lookup address).any fun peer => peer.state = .failed && peer.failedAttempts < 10)

/-- The loop of `reconnect_failed_peers`, over the peers that are left. -/
def reconnectEach (validatorId : Bytes) (io : Address → ConnectIo) :
    List Address → ℕ → NetworkState Address → Option (ℕ × NetworkState Address)
  | [], reconnected, s => some (reconnected, s)
  | address :: rest, reconnected, s => do
      let (result, s) ← connectPeer checks texts validatorId address (io address) s
      reconnectEach validatorId io rest
        (match result with
          | .ok () => reconnected + 1
          | .error _ => reconnected) s

def reconnectFailedPeers (validatorId : Bytes) (order : Enumeration Address)
    (io : Address → ConnectIo) (s : NetworkState Address) : Option (ℕ × NetworkState Address) :=
  reconnectEach checks texts validatorId io (failedPeers order s) 0 s

/-! ## Sending a message -/

inductive SendPhase where
  | attempt (number : ℕ) (lastError : Option CoreError)
  | connecting (number : ℕ) (frame : Bytes)
  | writing (number : ℕ) (frame : Bytes)
  | finished (result : Except CoreError (UInt64 × UInt64))

/-- A task that is at the start of an attempt is resumed at once, or after the backoff. -/
inductive SendIo where
  | resumed
  | connected (outcome : Outcome)
  | wrote (outcome : Outcome) (latencyMs : UInt64) (now : Instant)

def maxMessageSize : ℕ := 10 * 1024 * 1024

def failAttempt (number : ℕ) (error : CoreError) (s : NetworkState Address) :
    Option (SendPhase × NetworkState Address) := do
  let messageRetries ← checks.add s.stats.messageRetries 1
  some (.attempt (number + 1) (some error), { s with stats := { s.stats with messageRetries } })

/-- The start of an attempt, or the end of the loop. -/
def startAttempt (address : Address) (message : NetworkMessage) (maxRetries number : ℕ)
    (lastError : Option CoreError) (s : NetworkState Address) :
    Option (SendPhase × NetworkState Address) :=
  if number < maxRetries then
    match message.toBytes texts with
    | .error e =>
        failAttempt checks number
          (.invalidData ("Failed to serialize message: " ++ texts.coreError e)) s
    | .ok frame =>
        if maxMessageSize < frame.length then
          failAttempt checks number (.invalidData
            ("Message too large: " ++ toString frame.length ++ " bytes (max 10MB)")) s
        else some (.connecting number frame, s)
  else do
    let text := (lastError.map texts.coreError).getD "Unknown error"
    let s ← s.withPeer address (PeerInfo.recordFailure checks text)
    some (.finished (.error (lastError.getD (.invalidData "Unknown send error"))), s)

def recordSuccess (address : Address) (bytes latencyMs : UInt64) (now : Instant)
    (s : NetworkState Address) : Option (SendPhase × NetworkState Address) := do
  let s ← s.withPeer address (PeerInfo.recordSent checks bytes latencyMs now)
  let totalMessagesSent ← checks.add s.stats.totalMessagesSent 1
  some (.finished (.ok (latencyMs, bytes)), { s with stats := { s.stats with totalMessagesSent } })

/-- One step of `send_message_with_retry_real`. An attempt is over when its block is: the socket
is dropped, whether the write succeeded or not. -/
def send (address : Address) (message : NetworkMessage) (maxRetries : ℕ) (phase : SendPhase)
    (io : SendIo) (s : NetworkState Address) : Option (SendPhase × NetworkState Address) :=
  match phase, io with
  | .attempt number lastError, .resumed =>
      startAttempt checks texts address message maxRetries number lastError s
  | .connecting number frame, .connected outcome =>
      match outcome with
      | .timeout => failAttempt checks number (.invalidData "Connection timeout") s
      | .error text => failAttempt checks number (.invalidData ("Failed to connect: " ++ text)) s
      | .ok => some (.writing number frame, s)
  | .writing number frame, .wrote outcome latencyMs now =>
      match outcome with
      | .timeout => failAttempt checks number (.invalidData "Send timeout") s
      | .error text => failAttempt checks number (.invalidData ("Failed to send: " ++ text)) s
      | .ok => recordSuccess checks address (UInt64.ofNat frame.length) latencyMs now s
  | _, _ => none

end ValidatorSync

end SilverNetwork
