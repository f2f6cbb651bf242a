import SilverNetwork.Foundations.Machine
import SilverNetwork.Foundations.ScalarCodec
import SilverNetwork.Model.ValidatorSync

/-! The sending path that wraps a message into an envelope, and the sequence numbers that it puts
there. An envelope is framed as a message is, behind a length of four bytes. -/

namespace SilverNetwork

namespace ValidatorSync

/-! ## Addresses -/

abbrev Octets (n : ℕ) : Type := {bs : Bytes // bs.length = n}

/-- A socket address, without the flow and the scope of a V6 address, which are not written. -/
inductive SocketAddr where
  | v4 (ip : Octets 4) (port : UInt16)
  | v6 (ip : Octets 16) (port : UInt16)
  deriving DecidableEq, Repr

namespace SocketAddr

def v4Fields : Codec (Octets 4 × UInt16) := (Codec.octets 4).prod Codec.u16

def v6Fields : Codec (Octets 16 × UInt16) := (Codec.octets 16).prod Codec.u16

def decodeVariant (index : ℕ) : Decoder SocketAddr :=
  match index with
  | 0 => (fun f => .v4 f.1 f.2) <$> v4Fields.decode
  | 1 => (fun f => .v6 f.1 f.2) <$> v6Fields.decode
  | n => throw (.invalidVariant n)

def codec : Codec SocketAddr where
  encode
    | .v4 ip port => Codec.tagged 0 v4Fields (ip, port)
    | .v6 ip port => Codec.tagged 1 v6Fields (ip, port)
  decode := Codec.variants decodeVariant

end SocketAddr

/-! ## Envelopes -/

structure MessageEnvelope where
  messageType : UInt8
  data : Bytes
  timestamp : UInt64
  senderAddr : SocketAddr
  sequence : UInt64
  hash : Bytes
  compressed : Bool
  deriving DecidableEq, Repr

namespace MessageEnvelope

/-- The hash function is SHA-256. -/
def new (sha256 : Bytes → Bytes) (messageType : UInt8) (data : Bytes) (senderAddr : SocketAddr)
    (sequence : UInt64) (wall : SystemTime) : MessageEnvelope where
  messageType := messageType
  data := data
  timestamp := UInt64.ofNat (wall.sinceEpoch / 1_000_000_000)
  senderAddr := senderAddr
  sequence := sequence
  hash := sha256 data
  compressed := false

def verifyIntegrity (sha256 : Bytes → Bytes) (e : MessageEnvelope) : Bool := sha256 e.data = e.hash

def fieldsCodec : Codec (UInt8 × Bytes × UInt64 × SocketAddr × UInt64 × Bytes × Bool) :=
  Codec.u8.prod (Codec.bytes.prod (Codec.u64.prod (SocketAddr.codec.prod
    (Codec.u64.prod (Codec.bytes.prod Codec.bool)))))

def codec : Codec MessageEnvelope :=
  fieldsCodec.imap
    (fun f => ⟨f.1, f.2.1, f.2.2.1, f.2.2.2.1, f.2.2.2.2.1, f.2.2.2.2.2.1, f.2.2.2.2.2.2⟩)
    (fun e => (e.messageType, e.data, e.timestamp, e.senderAddr, e.sequence, e.hash, e.compressed))

variable {Address : Type} (texts : Texts Address)

def toBytes (e : MessageEnvelope) : Except CoreError Bytes :=
  match codec.encode e with
  | .error e => .error (.invalidData ("Serialization error: " ++ texts.codecError e))
  | .ok payload => .ok (NetworkMessage.frame payload)

def fromBytes (data : Bytes) : Except CoreError MessageEnvelope :=
  if data.length < 4 then .error (.invalidData "Envelope too short")
  else
    let len := ofBigEndian (data.take 4)
    if data.length < 4 + len then .error (.invalidData "Incomplete envelope")
    else
      match codec.decode.run ((data.drop 4).take len) with
      | .error e => .error (.invalidData ("Deserialization error: " ++ texts.codecError e))
      | .ok (envelope, _) => .ok envelope

end MessageEnvelope

def messageTypeFromNetworkMessage : NetworkMessage → UInt8
  | .validatorSetChange .. => 1
  | .snapshotCertificate .. => 2
  | .transactionBatch .. => 3
  | .ping .. => 4
  | .pong .. => 5
  | .handshake .. => 6
  | .ack .. => 7

/-! ## Sequence numbers -/

/-- How `send_message_real` draws from the counter: the number, and the counter after it. -/
def drawSequence (messageSequence : UInt64) : UInt64 × UInt64 :=
  (messageSequence, Saturating.add64 messageSequence 1)

def nextSequence (checks : OverflowChecks) (messageSequence : UInt64) : Option (UInt64 × UInt64) :=
  (checks.add messageSequence 1).map fun advanced => (advanced, advanced)

/-- A function that draws from the counter, which it does under the lock of the counter, once. -/
inductive SequenceDraw where
  | sendMessageReal
  | nextSequence
  deriving DecidableEq, Repr

def sequenceStep (checks : OverflowChecks) (messageSequence : UInt64) :
    SequenceDraw → Option (UInt64 × UInt64)
  | .sendMessageReal => some (drawSequence messageSequence)
  | .nextSequence => nextSequence checks messageSequence

/-- The draws of all callers, in the order in which they take the lock. -/
def sequenceMachine (checks : OverflowChecks) : Machine UInt64 SequenceDraw UInt64 where
  step := sequenceStep checks

abbrev SequenceCall : Type := Call UInt64 SequenceDraw UInt64

/-! ## Sending an envelope -/

/-- The outcomes of `send_message_real`: of the connection, of the write, of the flush and of the
read of an acknowledgement. -/
structure RealIo where
  connect : Outcome
  write : Outcome
  flush : Outcome
  ack : ReadOutcome

def Outcome.check (timedOut failed : String) : Outcome → Except CoreError Unit
  | .ok => .ok ()
  | .error text => .error (.invalidData (failed ++ text))
  | .timeout => .error (.invalidData timedOut)

variable {Address : Type} (texts : Texts Address) (sha256 : Bytes → Bytes)

/-- The bytes of the envelope, with the counter after it. A number is drawn for a message that
can be sent. -/
def prepareEnvelope (peerAddr : SocketAddr) (message : NetworkMessage) (wall : SystemTime)
    (messageSequence : UInt64) : Except CoreError Bytes × UInt64 :=
  match message.toBytes texts with
  | .error e =>
      (.error (.invalidData ("Failed to serialize message: " ++ texts.coreError e)),
        messageSequence)
  | .ok serializedData =>
      if maxMessageSize < serializedData.length then
        (.error (.invalidData ("Message too large: " ++ toString serializedData.length ++
          " bytes (max 10MB)")), messageSequence)
      else
        let (sequence, messageSequence) := drawSequence messageSequence
        let envelope := MessageEnvelope.new sha256 (messageTypeFromNetworkMessage message)
          serializedData peerAddr sequence wall
        (envelope.toBytes texts, messageSequence)

/-- What `send_message_real` returns, what it hands to the socket, and the counter after it. -/
structure RealSend where
  result : Except CoreError UInt64
  written : Option Bytes
  messageSequence : UInt64

/-- Whatever the acknowledgement, a message that has been flushed counts as sent. -/
def awaitAck (envelopeData : Bytes) (ack : ReadOutcome) : Except CoreError UInt64 :=
  match ack with
  | .data (b :: bytes) =>
      match NetworkMessage.fromBytes texts (b :: bytes) with
      | .ok (.ack _ _) => .ok (UInt64.ofNat envelopeData.length)
      | _ => .ok (UInt64.ofNat envelopeData.length)
  | _ => .ok (UInt64.ofNat envelopeData.length)

def sendMessageReal (peerAddr : SocketAddr) (message : NetworkMessage) (io : RealIo)
    (wall : SystemTime) (messageSequence : UInt64) : RealSend :=
  match prepareEnvelope texts sha256 peerAddr message wall messageSequence with
  | (.error e, messageSequence) => ⟨.error e, none, messageSequence⟩
  | (.ok envelopeData, messageSequence) =>
      match io.connect.check "Connection timeout" "Failed to connect: " with
      | .error e => ⟨.error e, none, messageSequence⟩
      | .ok () =>
          let result := do
            io.write.check "Send timeout" "Failed to send: "
            io.flush.check "Flush timeout" "Failed to flush: "
            awaitAck texts envelopeData io.ack
          ⟨result, some envelopeData, messageSequence⟩

/-! ## The task of a message that is sent with retries -/

variable [DecidableEq Address]

def sendMachine (checks : OverflowChecks) (address : Address) (message : NetworkMessage)
    (maxRetries : ℕ) : Machine (SendPhase × NetworkState Address) SendIo Unit where
  step s io := (send checks texts address message maxRetries s.1 io s.2).map fun s => ((), s)

end ValidatorSync

end SilverNetwork
