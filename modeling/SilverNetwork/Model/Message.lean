import SilverNetwork.Foundations.Codec

/-! Gossip messages and their encoding. `bincode` writes an enum as the four-byte index of
its variant followed by the fields of the variant in order. -/

namespace SilverNetwork

/-- The payloads that `silver_core` supplies, with their `bincode` encodings, and the text
that `bincode` displays for an error. -/
structure Payloads where
  Transaction : Type
  TransactionBatch : Type
  transaction : Codec Transaction
  transactionBatch : Codec TransactionBatch
  errorText : CodecError → String

/-- Payloads small enough to evaluate: a transaction is a number, a batch a list of them. -/
abbrev Payloads.plain : Payloads where
  Transaction := UInt64
  TransactionBatch := List UInt64
  transaction := Codec.u64
  transactionBatch := Codec.u64.list
  errorText _ := "malformed"

inductive NetworkMessage (P : Payloads) where
  | transaction (tx : P.Transaction)
  | batch (batch : P.TransactionBatch)
  | workPackage (workId : UInt64) (header : Bytes) (target : UInt64) (chainId : UInt32)
  | minerShare (workId nonce : UInt64) (minerAddress : Bytes)
  | batchRequest (fromSequence toSequence : UInt64)
  | batchResponse (batches : List P.TransactionBatch)
  | ping (timestamp : UInt64)
  | pong (timestamp : UInt64)

inductive MessageType where
  | transaction
  | batch
  | workPackage
  | minerShare
  | batchRequest
  | batchResponse
  | ping
  | pong
  deriving DecidableEq, Repr

/-- The name that `Debug` prints. -/
def MessageType.debug : MessageType → String
  | .transaction => "Transaction"
  | .batch => "Batch"
  | .workPackage => "WorkPackage"
  | .minerShare => "MinerShare"
  | .batchRequest => "BatchRequest"
  | .batchResponse => "BatchResponse"
  | .ping => "Ping"
  | .pong => "Pong"

namespace NetworkMessage

variable {P : Payloads}

def messageType : NetworkMessage P → MessageType
  | .transaction _ => .transaction
  | .batch _ => .batch
  | .workPackage .. => .workPackage
  | .minerShare .. => .minerShare
  | .batchRequest .. => .batchRequest
  | .batchResponse _ => .batchResponse
  | .ping _ => .ping
  | .pong _ => .pong

/-! ## The fields of each struct variant -/

def workPackageFields : Codec (UInt64 × Bytes × UInt64 × UInt32) :=
  Codec.u64.prod (Codec.bytes.prod (Codec.u64.prod Codec.u32))

def minerShareFields : Codec (UInt64 × UInt64 × Bytes) :=
  Codec.u64.prod (Codec.u64.prod Codec.bytes)

def batchRequestFields : Codec (UInt64 × UInt64) := Codec.u64.prod Codec.u64

/-! ## The enum -/

def encodeVariant {α : Type} (index : UInt32) (fields : Codec α) (x : α) :
    Except CodecError Bytes :=
  (Codec.u32.prod fields).encode (index, x)

def decodeVariant (index : ℕ) : Decoder (NetworkMessage P) :=
  match index with
  | 0 => .transaction <$> P.transaction.decode
  | 1 => .batch <$> P.transactionBatch.decode
  | 2 => (fun f => .workPackage f.1 f.2.1 f.2.2.1 f.2.2.2) <$> workPackageFields.decode
  | 3 => (fun f => .minerShare f.1 f.2.1 f.2.2) <$> minerShareFields.decode
  | 4 => (fun f => .batchRequest f.1 f.2) <$> batchRequestFields.decode
  | 5 => .batchResponse <$> P.transactionBatch.list.decode
  | 6 => .ping <$> Codec.u64.decode
  | 7 => .pong <$> Codec.u64.decode
  | n => throw (.invalidVariant n)

def codec : Codec (NetworkMessage P) where
  encode
    | .transaction tx => encodeVariant 0 P.transaction tx
    | .batch b => encodeVariant 1 P.transactionBatch b
    | .workPackage workId header target chainId =>
        encodeVariant 2 workPackageFields (workId, header, target, chainId)
    | .minerShare workId nonce minerAddress =>
        encodeVariant 3 minerShareFields (workId, nonce, minerAddress)
    | .batchRequest fromSequence toSequence =>
        encodeVariant 4 batchRequestFields (fromSequence, toSequence)
    | .batchResponse bs => encodeVariant 5 P.transactionBatch.list bs
    | .ping timestamp => encodeVariant 6 Codec.u64 timestamp
    | .pong timestamp => encodeVariant 7 Codec.u64 timestamp
  decode := do
    let index ← Codec.u32.decode
    decodeVariant index.toNat

def toBytes (m : NetworkMessage P) : Except CodecError Bytes := codec.encode m

/-- `bincode::deserialize` ignores what follows the value. -/
def fromBytes (bytes : Bytes) : Except CodecError (NetworkMessage P) :=
  Prod.fst <$> codec.decode.run bytes

end NetworkMessage

end SilverNetwork
