import SilverNetwork.Foundations.Machine
import SilverNetwork.Model.ValidatorSync

/-! The sender of a message and the listener of its connections, as two parties that share only
the bytes on the wire. Each attempt of the sender opens a connection of its own, and the listener
takes care of every connection that reaches it. No bytes are lost, and a read returns one written
frame, as far as the buffer holds it. -/

namespace SilverNetwork

namespace ValidatorSync

/-- A connection, with the frames that the sender has written and the listener has not read, and
with the messages that the listener's loop has decoded. -/
structure Connection where
  pending : List Bytes
  closed : Bool
  phase : ConnectionPhase
  received : List NetworkMessage

/-- What the two parties are started with. -/
structure Parties (Address : Type) where
  checks : OverflowChecks
  texts : Texts Address
  message : NetworkMessage
  maxRetries : ℕ
  listener : Address
  sender : Address
  validatorId : Bytes

/-- The newest connection comes first. -/
structure Exchange (Address : Type) where
  sender : SendPhase
  senderState : NetworkState Address
  listenerState : NetworkState Address
  connections : List Connection

variable {Address : Type}

/-- The connection of a failed attempt may have reached the listener all the same, and a failed
write may have delivered some of the frame. -/
inductive ExchangeEvent where
  | resumed
  | connected (outcome : Outcome) (accepted : Bool)
  | wrote (outcome : Outcome) (delivered : ℕ) (latencyMs : UInt64) (now : Instant)
  | listenerWrote (index : ℕ) (outcome : Except String Unit)
  | listenerRead (index : ℕ) (now : Instant)
  | listenerTimedOut (index : ℕ) (now : Instant)
  | listenerFailed (index : ℕ) (text : String) (now : Instant)

def Connection.opened (P : Parties Address) (closed : Bool) : Connection where
  pending := []
  closed := closed
  phase := openConnection P.texts P.validatorId
  received := []

/-- The sender writes its bytes, if any, and drops the socket. -/
def Connection.deliver (bytes : Bytes) (c : Connection) : Connection :=
  { c with pending := if bytes = [] then c.pending else c.pending ++ [bytes], closed := true }

/-- What a read returns and what it leaves; with nothing to read it waits, or is at the end. -/
def Connection.nextRead (c : Connection) : Option (Bytes × List Bytes) :=
  match c.pending with
  | [] => if c.closed then some ([], []) else none
  | frame :: rest =>
      some (frame.take c.phase.bufferSize,
        if frame.length ≤ c.phase.bufferSize then rest
        else frame.drop c.phase.bufferSize :: rest)

variable [DecidableEq Address]

def senderStep (P : Parties Address) (io : SendIo) (x : Exchange Address) :
    Option (Exchange Address) :=
  (send P.checks P.texts P.listener P.message P.maxRetries x.sender io x.senderState).map
    fun (sender, senderState) => { x with sender, senderState }

def listenerStep (P : Parties Address) (index : ℕ)
    (io : Connection → Option (ListenIo × List Bytes)) (x : Exchange Address) :
    Option (Exchange Address) := do
  let c ← x.connections[index]?
  let (io, pending) ← io c
  let (phase, message, listenerState) ←
    listen P.checks P.texts P.sender c.phase io x.listenerState
  let received := c.received ++ message.toList
  some { x with
    listenerState
    connections := x.connections.set index { c with pending, phase, received } }

/-- What a write of the sender puts on the wire. -/
def SendPhase.delivered (outcome : Outcome) (delivered : ℕ) : SendPhase → Bytes
  | .writing _ frame => if outcome = .ok then frame else frame.take delivered
  | _ => []

def exchangeStep (P : Parties Address) (x : Exchange Address) :
    ExchangeEvent → Option (Exchange Address)
  | .resumed => senderStep P .resumed x
  | .connected outcome accepted =>
      (senderStep P (.connected outcome) x).map fun x =>
        if outcome = .ok then { x with connections := .opened P false :: x.connections }
        else if accepted then { x with connections := .opened P true :: x.connections }
        else x
  | .wrote outcome delivered latencyMs now =>
      match x.connections with
      | [] => none
      | c :: others =>
          (senderStep P (.wrote outcome latencyMs now) x).map fun x' =>
            { x' with connections := c.deliver (x.sender.delivered outcome delivered) :: others }
  | .listenerWrote index outcome =>
      listenerStep P index (fun c => some (.wrote outcome, c.pending)) x
  | .listenerRead index now =>
      listenerStep P index
        (fun c => c.nextRead.map fun (bytes, pending) => (.read (.data bytes) now, pending)) x
  | .listenerTimedOut index now =>
      listenerStep P index (fun c => some (.read .timeout now, c.pending)) x
  | .listenerFailed index text now =>
      listenerStep P index (fun c => some (.read (.error text) now, c.pending)) x

def exchangeMachine (P : Parties Address) : Machine (Exchange Address) ExchangeEvent Unit where
  step x e := (exchangeStep P x e).map fun x => ((), x)

abbrev ExchangeCall (Address : Type) : Type := Call (Exchange Address) ExchangeEvent Unit

/-- Before the first attempt, with whatever the two managers know already. -/
def Exchange.start (senderState listenerState : NetworkState Address) : Exchange Address where
  sender := .attempt 0 none
  senderState := senderState
  listenerState := listenerState
  connections := []

end ValidatorSync

end SilverNetwork
