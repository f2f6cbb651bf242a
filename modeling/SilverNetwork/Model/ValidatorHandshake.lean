import SilverNetwork.Foundations.Pipe
import SilverNetwork.Model.ValidatorTasks

/-! Two managers of which one connects to the other: `connect_peer` on one side, and
`handle_peer_connection` on the other. Both send their handshake and read that of the other, a read
may return any part of what is on the wire, and other tasks may change what each manager knows. -/

namespace SilverNetwork

namespace ValidatorSync

/-- The two validators, the address that the one connects to, and the one that `accept` gives the
other for the connection. The latter has the port that the connector's system has chosen for it, so
that as a rule no manager has added it. -/
structure HandshakeParties (Address : Type) where
  checks : OverflowChecks
  texts : Texts Address
  connectorId : Bytes
  listenerId : Bytes
  peerAddr : Address
  listener : Address

/-- A side has no phase before it is started and once it has ended. -/
structure Handshake (Address : Type) where
  connector : Option ConnectPhase
  connectorState : NetworkState Address
  listener : Option ConnectionPhase
  listenerState : NetworkState Address
  toListener : Pipe UInt8
  toConnector : Pipe UInt8

inductive ReadAttempt where
  | bytes (count : ℕ)
  | error (text : String)
  | timeout

/-- A connection that fails on the side that makes it may have reached the other all the same. -/
inductive HandshakeEvent (Address : Type) where
  | connectorLocked
  | connected (outcome : Outcome) (accepted : Bool)
  | connectorSends (count : ℕ)
  | connectorWrote (outcome : Except String Unit)
  | connectorReads (attempt : ReadAttempt)
  | listenerSends (count : ℕ)
  | listenerWrote (outcome : Except String Unit)
  | listenerReads (attempt : ReadAttempt) (now : Instant)
  | others (connectorState listenerState : NetworkState Address)

variable {Address : Type}

/-- The bytes of the own handshake; one that cannot be encoded is never sent. -/
def ownFrame (texts : Texts Address) (validatorId : Bytes) : Bytes :=
  match (ownHandshake validatorId).toBytes texts with
  | .ok frame => frame
  | .error _ => []

/-- What a read comes to, and what it leaves. -/
def ReadAttempt.take (size : ℕ) (pipe : Pipe UInt8) :
    ReadAttempt → Option (ReadOutcome × Pipe UInt8)
  | .bytes count => (pipe.read size count).map fun (data, pipe) => (.data data, pipe)
  | .error text => some (.error text, pipe)
  | .timeout => some (.timeout, pipe)

namespace Handshake

/-- Before the connection is made, with whatever the two managers know already. -/
def start (connectorState listenerState : NetworkState Address) : Handshake Address where
  connector := some .begun
  connectorState := connectorState
  listener := none
  listenerState := listenerState
  toListener := .empty
  toConnector := .empty

/-- The listener takes the connection on. -/
def accept (P : HandshakeParties Address) (x : Handshake Address) : Handshake Address :=
  let step := (openConnection P.texts P.listenerId).onward x.listenerState
  { x with
    listener := step.task
    listenerState := step.state
    toConnector := x.toConnector.close step.task.isNone }

def connectorFlush (P : HandshakeParties Address) (x : Handshake Address) : Handshake Address :=
  { x with toListener := x.toListener.flush (ownFrame P.texts P.connectorId) }

def listenerFlush (P : HandshakeParties Address) (x : Handshake Address) : Handshake Address :=
  { x with toConnector := x.toConnector.flush (ownFrame P.texts P.listenerId) }

variable [DecidableEq Address]

/-- A side that ends drops its socket. -/
def connectorStep (P : HandshakeParties Address) (io : ConnectStepIo) (x : Handshake Address) :
    Option (Progress (Except CoreError Unit) × Handshake Address) := do
  let phase ← x.connector
  let step ← connectStep P.checks P.texts P.connectorId P.listener phase io x.connectorState
  some (step.progress, { x with
    connector := step.task
    connectorState := step.state
    toListener := x.toListener.close step.task.isNone })

def listenerStep (P : HandshakeParties Address) (io : ListenIo) (x : Handshake Address) :
    Option (Progress (Except CoreError Unit) × Handshake Address) := do
  let phase ← x.listener
  let step ← listenStep P.checks P.texts P.peerAddr phase io x.listenerState
  some (step.progress, { x with
    listener := step.task
    listenerState := step.state
    toConnector := x.toConnector.close step.task.isNone })

def step (P : HandshakeParties Address) (x : Handshake Address) :
    HandshakeEvent Address → Option (Progress (Except CoreError Unit) × Handshake Address)
  | .connectorLocked => x.connectorStep P .locked
  | .connected outcome accepted =>
      (x.connectorStep P (.connected outcome)).map fun (r, x) =>
        (r, if outcome = .ok ∨ accepted then x.accept P else x)
  | .connectorSends count =>
      match x.connector with
      | some .writing => some (.running,
          { x with toListener := x.toListener.send (ownFrame P.texts P.connectorId) count })
      | _ => none
  | .connectorWrote (.ok ()) => (x.connectorFlush P).connectorStep P (.wrote (.ok ()))
  | .connectorWrote (.error text) => x.connectorStep P (.wrote (.error text))
  | .connectorReads attempt => do
      let (outcome, toConnector) ← attempt.take 4096 x.toConnector
      { x with toConnector }.connectorStep P (.answered outcome)
  | .listenerSends count =>
      match x.listener with
      | some .greeting => some (.running,
          { x with toConnector := x.toConnector.send (ownFrame P.texts P.listenerId) count })
      | _ => none
  | .listenerWrote (.ok ()) => (x.listenerFlush P).listenerStep P (.wrote (.ok ()))
  | .listenerWrote (.error text) => x.listenerStep P (.wrote (.error text))
  | .listenerReads attempt now => do
      let phase ← x.listener
      let (outcome, toListener) ← attempt.take phase.bufferSize x.toListener
      { x with toListener }.listenerStep P (.read outcome now)
  | .others connectorState listenerState => some (.running, { x with connectorState, listenerState })

end Handshake

def handshakeMachine [DecidableEq Address] (P : HandshakeParties Address) :
    Machine (Handshake Address) (HandshakeEvent Address) (Progress (Except CoreError Unit)) where
  step := Handshake.step P

abbrev HandshakeCall (Address : Type) : Type :=
  Call (Handshake Address) (HandshakeEvent Address) (Progress (Except CoreError Unit))

end ValidatorSync

end SilverNetwork
