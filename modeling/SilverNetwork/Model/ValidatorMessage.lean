import SilverNetwork.Foundations.Codec

/-! The messages between validators. On the wire a message is its `bincode` encoding behind a
length of four bytes, the most significant first. -/

namespace SilverNetwork

namespace ValidatorSync

/-- The variant of `silver_core::Error` that the validator network builds. -/
inductive CoreError where
  | invalidData (message : String)
  deriving DecidableEq, Repr

/-- What other crates display: an address, an error of `bincode` and one of `silver_core`. -/
structure Texts (Address : Type) where
  address : Address → String
  codecError : CodecError → String
  coreError : CoreError → String

/-- Texts small enough to evaluate with. -/
def Texts.plain : Texts ℕ where
  address := toString
  codecError _ := "malformed"
  coreError
    | .invalidData message => message

inductive NetworkMessage where
  | validatorSetChange (data : Bytes) (version : UInt32)
  | snapshotCertificate (data : Bytes) (height : UInt64) (version : UInt32)
  | transactionBatch (batchId data : Bytes) (sequence : UInt64) (version : UInt32)
  | ping (timestamp nonce : UInt64)
  | pong (timestamp nonce : UInt64)
  | handshake (validatorId : Bytes) (version : UInt32) (capabilities : Bytes)
  | ack (messageHash : Bytes) (sequence : UInt64)
  deriving DecidableEq, Repr

namespace NetworkMessage

/-! ## The fields of each variant -/

def validatorSetChangeFields : Codec (Bytes × UInt32) := Codec.bytes.prod Codec.u32

def snapshotCertificateFields : Codec (Bytes × UInt64 × UInt32) :=
  Codec.bytes.prod (Codec.u64.prod Codec.u32)

def transactionBatchFields : Codec (Bytes × Bytes × UInt64 × UInt32) :=
  Codec.bytes.prod (Codec.bytes.prod (Codec.u64.prod Codec.u32))

def pingFields : Codec (UInt64 × UInt64) := Codec.u64.prod Codec.u64

def handshakeFields : Codec (Bytes × UInt32 × Bytes) :=
  Codec.bytes.prod (Codec.u32.prod Codec.bytes)

def ackFields : Codec (Bytes × UInt64) := Codec.bytes.prod Codec.u64

/-! ## The enum -/

def decodeVariant (index : ℕ) : Decoder NetworkMessage :=
  match index with
  | 0 => (fun f => .validatorSetChange f.1 f.2) <$> validatorSetChangeFields.decode
  | 1 => (fun f => .snapshotCertificate f.1 f.2.1 f.2.2) <$> snapshotCertificateFields.decode
  | 2 => (fun f => .transactionBatch f.1 f.2.1 f.2.2.1 f.2.2.2) <$> transactionBatchFields.decode
  | 3 => (fun f => .ping f.1 f.2) <$> pingFields.decode
  | 4 => (fun f => .pong f.1 f.2) <$> pingFields.decode
  | 5 => (fun f => .handshake f.1 f.2.1 f.2.2) <$> handshakeFields.decode
  | 6 => (fun f => .ack f.1 f.2) <$> ackFields.decode
  | n => throw (.invalidVariant n)

def codec : Codec NetworkMessage where
  encode
    | .validatorSetChange data version => Codec.tagged 0 validatorSetChangeFields (data, version)
    | .snapshotCertificate data height version =>
        Codec.tagged 1 snapshotCertificateFields (data, height, version)
    | .transactionBatch batchId data sequence version =>
        Codec.tagged 2 transactionBatchFields (batchId, data, sequence, version)
    | .ping timestamp nonce => Codec.tagged 3 pingFields (timestamp, nonce)
    | .pong timestamp nonce => Codec.tagged 4 pingFields (timestamp, nonce)
    | .handshake validatorId version capabilities =>
        Codec.tagged 5 handshakeFields (validatorId, version, capabilities)
    | .ack messageHash sequence => Codec.tagged 6 ackFields (messageHash, sequence)
  decode := Codec.variants decodeVariant

variable {Address : Type} (texts : Texts Address)

/-- The length prefix keeps the low 32 bits of the length. -/
def frame (payload : Bytes) : Bytes :=
  bigEndian 4 (UInt32.ofNat payload.length).toNat ++ payload

def toBytes (m : NetworkMessage) : Except CoreError Bytes :=
  match codec.encode m with
  | .error e => .error (.invalidData ("Serialization error: " ++ texts.codecError e))
  | .ok payload => .ok (frame payload)

/-- `bincode::deserialize` ignores what follows the value, and `from_bytes` what follows the
frame. -/
def fromBytes (data : Bytes) : Except CoreError NetworkMessage :=
  if data.length < 4 then .error (.invalidData "Message too short")
  else
    let len := ofBigEndian (data.take 4)
    if data.length < 4 + len then .error (.invalidData "Incomplete message")
    else
      match codec.decode.run ((data.drop 4).take len) with
      | .error e => .error (.invalidData ("Deserialization error: " ++ texts.codecError e))
      | .ok (message, _) => .ok message

end NetworkMessage

end ValidatorSync

end SilverNetwork
