import SilverNetwork.Model.Gossip

/-! The handle through which a node publishes its own transactions and batches. -/

namespace SilverNetwork

structure NetworkHandle where
  gossip : GossipProtocol

namespace NetworkHandle

variable {P : Payloads}

/-- `bincode::serialize`, with the error wrapped as the handle does. -/
def serialize {α : Type} (P : Payloads) (codec : Codec α) (x : α) : Except NetworkError Bytes :=
  (codec.encode x).mapError fun e => .serialization (P.errorText e)

/-- The bytes that a transaction is broadcast as. -/
def transactionData (tx : P.Transaction) : Except NetworkError Bytes :=
  serialize P P.transaction tx

/-- The bytes that a batch is broadcast as. -/
def batchData (batch : P.TransactionBatch) : Except NetworkError Bytes :=
  serialize P P.transactionBatch batch

def broadcastData (checks : OverflowChecks) (messageType : MessageType)
    (data : Except NetworkError Bytes) (cachedAt : Instant) (order : CacheOrder)
    (handle : NetworkHandle) : Option (Except NetworkError Unit × NetworkHandle) :=
  match data with
  | .error e => some (.error e, handle)
  | .ok data =>
      (handle.gossip.broadcast checks messageType data cachedAt order).map
        (Prod.map id NetworkHandle.mk)

def broadcastTransaction (checks : OverflowChecks) (tx : P.Transaction) (cachedAt : Instant)
    (order : CacheOrder) (handle : NetworkHandle) :
    Option (Except NetworkError Unit × NetworkHandle) :=
  handle.broadcastData checks .transaction (transactionData tx) cachedAt order

def broadcastBatch (checks : OverflowChecks) (batch : P.TransactionBatch) (cachedAt : Instant)
    (order : CacheOrder) (handle : NetworkHandle) :
    Option (Except NetworkError Unit × NetworkHandle) :=
  handle.broadcastData checks .batch (batchData batch) cachedAt order

end NetworkHandle

end SilverNetwork
