import SilverNetwork.Foundations.Codec
import SilverNetwork.Foundations.Machine
import SilverNetwork.Foundations.Overflow

/-! The message batcher. Lengths and sizes are the 64-bit `usize` of the target; an operation
that panics, by overflow or by a slice out of bounds, or that aborts is `none`. -/

namespace SilverNetwork

inductive IoErrorKind where
  | invalidData
  | other
  deriving DecidableEq, Repr

structure IoError where
  kind : IoErrorKind
  message : String
  deriving DecidableEq, Repr

structure BatchStats where
  batchesCreated : UInt64
  messagesBatched : UInt64
  deriving DecidableEq

def BatchStats.countBatch (checks : OverflowChecks) (messages : ℕ) (stats : BatchStats) :
    Option BatchStats := do
  let batchesCreated ← checks.add stats.batchesCreated 1
  let messagesBatched ← checks.add stats.messagesBatched (UInt64.ofNat messages)
  pure { batchesCreated, messagesBatched }

structure MessageBatcher where
  pending : List Bytes
  currentSize : UInt64
  maxBatchSize : UInt64
  maxMessages : UInt64
  stats : BatchStats
  deriving DecidableEq

/-- Which requests for memory are served; one that is not aborts the process. A vector without any
capacity asks for none. -/
structure Allocator where
  serves : ℕ → Bool
  serves_zero : serves 0 = true

def Allocator.unlimited : Allocator := ⟨fun _ => true, rfl⟩

/-- All requests of up to `size` bytes are served. -/
def Allocator.upTo (size : ℕ) : Allocator := ⟨fun n => n ≤ size, by simp⟩

/-- The bytes of a `Vec<u8>` itself, of which a vector of messages holds one for each. -/
def messageSlot : ℕ := 24

/-- `(length as u32).to_le_bytes()`, which keeps the low 32 bits. -/
def lengthBytes (length : ℕ) : Bytes := littleEndian 4 (UInt32.ofNat length).toNat

namespace MessageBatcher

def new (maxBatchSize maxMessages : UInt64) : MessageBatcher where
  pending := []
  currentSize := 0
  maxBatchSize := maxBatchSize
  maxMessages := maxMessages
  stats := ⟨0, 0⟩

/-- The number of messages, then the length and the bytes of each. -/
def serialize (messages : List Bytes) : Bytes :=
  lengthBytes messages.length ++ messages.flatMap fun m => lengthBytes m.length ++ m

def flush (checks : OverflowChecks) (b : MessageBatcher) : Option (Bytes × MessageBatcher) :=
  if b.pending = [] then some ([], b)
  else (b.stats.countBatch checks b.pending.length).map fun stats =>
    (serialize b.pending, { b with pending := [], currentSize := 0, stats })

/-- The message does not fit into the batch that is pending. -/
def exceeds (checks : OverflowChecks) (messageSize : UInt64) (b : MessageBatcher) : Option Bool :=
  if b.pending = [] then some false
  else (checks.add b.currentSize messageSize).map fun size =>
    b.maxBatchSize < size || b.maxMessages.toNat ≤ b.pending.length

/-- The batch that is pending has reached one of the limits. -/
def isReady (b : MessageBatcher) : Bool :=
  b.maxBatchSize ≤ b.currentSize || b.maxMessages.toNat ≤ b.pending.length

def addMessage (checks : OverflowChecks) (message : Bytes) (b : MessageBatcher) :
    Option (Option Bytes × MessageBatcher) := do
  let messageSize := UInt64.ofNat message.length
  if ← b.exceeds checks messageSize then
    let (batch, b) ← b.flush checks
    some (some batch, { b with pending := b.pending ++ [message], currentSize := messageSize })
  else
    let currentSize ← checks.add b.currentSize messageSize
    let b := { b with pending := b.pending ++ [message], currentSize }
    if b.isReady then (b.flush checks).map (Prod.map some id) else some (none, b)

def pendingCount (b : MessageBatcher) : ℕ := b.pending.length

/-! ## Reading a batch -/

/-- `&batch[start..stop]`, which panics unless the range lies within the batch. -/
def slice (batch : Bytes) (start stop : ℕ) : Option Bytes :=
  if start ≤ stop ∧ stop ≤ batch.length then some ((batch.drop start).take (stop - start))
  else none

def readLength (batch : Bytes) (cursor : ℕ) : Option ℕ :=
  (slice batch cursor (cursor + 4)).map fun bytes =>
    (UInt32.ofNat (ofLittleEndian bytes)).toNat

/-- The loop over the declared number of messages, with those already read. -/
def unbatchFrom (batch : Bytes) : ℕ → ℕ → List Bytes → Option (Except IoError (List Bytes))
  | 0, _, messages => some (.ok messages)
  | remaining + 1, cursor, messages =>
      if batch.length < cursor + 4 then some (.error ⟨.invalidData, "Incomplete batch"⟩)
      else do
        let length ← readLength batch cursor
        let cursor := cursor + 4
        if batch.length < cursor + length then
          some (.error ⟨.invalidData, "Incomplete message"⟩)
        else
          let message ← slice batch cursor (cursor + length)
          unbatchFrom batch remaining (cursor + length) (messages ++ [message])

/-- `unbatch` under an allocator, which has to serve the slots of all the messages declared before
one is read. The copies of the messages, which are no longer than the batch, are always served. -/
def unbatchUnder (allocator : Allocator) (batch : Bytes) : Option (Except IoError (List Bytes)) :=
  if batch.length < 4 then some (.error ⟨.invalidData, "Batch too small"⟩)
  else do
    let count ← readLength batch 0
    if allocator.serves (messageSlot * count) then unbatchFrom batch count 4 [] else none

/-- `unbatch` with all the memory that it asks for. -/
def unbatch (batch : Bytes) : Option (Except IoError (List Bytes)) := unbatchUnder .unlimited batch

end MessageBatcher

/-- A slice or vector of bytes of the language, whose length `isize` can hold. -/
@[ext] structure ByteSlice where
  bytes : Bytes
  length_lt : bytes.length < 2 ^ 63

def ByteSlice.len (slice : ByteSlice) : UInt64 := UInt64.ofNat slice.bytes.length

theorem ByteSlice.toNat_len (slice : ByteSlice) : slice.len.toNat = slice.bytes.length := by
  apply UInt64.toNat_ofNat_of_lt'
  exact Nat.lt_trans slice.length_lt (by decide)

/-- The slots that a call of `unbatch` reserves up front, the iterations of its loop that store
a message, and its result. -/
structure UnbatchWork where
  reserved : ℕ
  iterations : ℕ
  result : Except IoError (List Bytes)

namespace MessageBatcher

/-! ## Reading a batch on machine words -/

def sliceAt (batch : ByteSlice) (start stop : UInt64) : Option Bytes :=
  slice batch.bytes start.toNat stop.toNat

def lengthAt (batch : ByteSlice) (start stop : UInt64) : Option UInt64 :=
  (sliceAt batch start stop).map fun bytes => (UInt32.ofNat (ofLittleEndian bytes)).toUInt64

/-- The loop of `unbatch` with its 64-bit cursor. Each end of a range stands for the three
places of the source that compute it: the check, the slice and the step of the cursor. -/
def unbatchLoop (checks : OverflowChecks) (batch : ByteSlice) :
    ℕ → UInt64 → List Bytes → Option (ℕ × Except IoError (List Bytes))
  | 0, _, messages => some (messages.length, .ok messages)
  | remaining + 1, cursor, messages => do
      let afterLength ← checks.add cursor 4
      if batch.len < afterLength then
        some (messages.length, .error ⟨.invalidData, "Incomplete batch"⟩)
      else
        let length ← lengthAt batch cursor afterLength
        let afterMessage ← checks.add afterLength length
        if batch.len < afterMessage then
          some (messages.length, .error ⟨.invalidData, "Incomplete message"⟩)
        else
          let message ← sliceAt batch afterLength afterMessage
          unbatchLoop checks batch remaining afterMessage (messages ++ [message])

def unbatchOnWords (checks : OverflowChecks) (batch : ByteSlice) : Option UnbatchWork :=
  if batch.len < 4 then some ⟨0, 0, .error ⟨.invalidData, "Batch too small"⟩⟩
  else do
    let cursor ← checks.add 0 4
    let numMessages ← lengthAt batch 0 cursor
    let (iterations, result) ← unbatchLoop checks batch numMessages.toNat cursor []
    some ⟨numMessages.toNat, iterations, result⟩

end MessageBatcher

/-! ## The machine -/

inductive BatcherEvent where
  | addMessage (message : Bytes)
  | flush

/-- A call returns at most one batch; an explicit flush may return an empty one. -/
def batcherStep (checks : OverflowChecks) (b : MessageBatcher) :
    BatcherEvent → Option (Option Bytes × MessageBatcher)
  | .addMessage message => b.addMessage checks message
  | .flush => (b.flush checks).map (Prod.map some id)

def batcherMachine (checks : OverflowChecks) :
    Machine MessageBatcher BatcherEvent (Option Bytes) where
  step := batcherStep checks

abbrev BatcherCall : Type := Call MessageBatcher BatcherEvent (Option Bytes)

end SilverNetwork
