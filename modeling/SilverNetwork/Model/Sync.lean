import SilverNetwork.Foundations.Binary64
import SilverNetwork.Foundations.KeyedStore
import SilverNetwork.Foundations.Machine
import SilverNetwork.Foundations.Overflow
import SilverNetwork.Foundations.RetryTable
import SilverNetwork.Model.Error
import SilverNetwork.Model.Platform

/-! The state synchronization protocol. Each operation takes the clock readings it
makes and the order in which it traverses each hash map as arguments. An operation
that panics (arithmetic overflow under `overflow-checks`) is `none`. -/

namespace SilverNetwork

inductive SyncState where
  | idle
  | downloadingSnapshot (targetSequence : UInt64) (startedAt : Instant)
  | verifyingSnapshot (sequence : UInt64)
  | downloadingTransactions (fromSequence toSequence : UInt64) (startedAt : Instant)
  | applyingTransactions (count : ℕ)
  | synced (sequence : UInt64)
  deriving DecidableEq, Repr

abbrev TransactionRequestId : Type := UInt64

structure SnapshotRequest (P : Platform) where
  sequence : UInt64
  peerId : P.PeerId
  requestedAt : Instant
  retries : ℕ

structure TransactionRequest (P : Platform) where
  id : TransactionRequestId
  fromSequence : UInt64
  toSequence : UInt64
  peerId : P.PeerId
  requestedAt : Instant
  retries : ℕ

structure PendingSnapshot (P : Platform) where
  snapshot : P.Snapshot
  peerId : P.PeerId
  receivedAt : Instant

instance (P : Platform) : Reissuable (SnapshotRequest P) where
  requestedAt := SnapshotRequest.requestedAt
  retries := SnapshotRequest.retries
  reissue r t := { r with retries := r.retries + 1, requestedAt := t }
  requestedAt_reissue _ _ := rfl
  retries_reissue _ _ := rfl

instance (P : Platform) : Reissuable (TransactionRequest P) where
  requestedAt := TransactionRequest.requestedAt
  retries := TransactionRequest.retries
  reissue r t := { r with retries := r.retries + 1, requestedAt := t }
  requestedAt_reissue _ _ := rfl
  retries_reissue _ _ := rfl

/-- What the caller is to do after a sync event. -/
inductive SyncAction (P : Platform) where
  | none
  | verifySnapshot (snapshot : P.Snapshot)
  | applySnapshot (snapshot : P.Snapshot)
  | applyTransactions (transactions : List P.Transaction)
  | retrySnapshotRequest (sequence : UInt64) (peerId : P.PeerId)
  | retryTransactionRequest (fromSequence toSequence : UInt64) (peerId : P.PeerId)

structure SyncProgress where
  state : String
  progress : Binary64.Value
  pendingRequests : ℕ
  deriving DecidableEq

structure StateSync (P : Platform) where
  state : SyncState
  pendingSnapshotRequests : HashMap UInt64 (SnapshotRequest P)
  pendingTransactionRequests : HashMap TransactionRequestId (TransactionRequest P)
  pendingSnapshots : HashMap UInt64 (PendingSnapshot P)
  downloadedTransactions : HashMap P.TransactionDigest P.Transaction
  timeout : Duration
  maxConcurrentRequests : UInt64
  nextRequestId : UInt64

/-- A request is retried three times before it is given up. -/
def maxRetries : ℕ := 3

namespace StateSync

variable {P : Platform}

def withConfig (timeout : Duration) (maxConcurrentRequests : UInt64) : StateSync P where
  state := .idle
  pendingSnapshotRequests := ∅
  pendingTransactionRequests := ∅
  pendingSnapshots := ∅
  downloadedTransactions := ∅
  timeout := timeout
  maxConcurrentRequests := maxConcurrentRequests
  nextRequestId := 0

def new : StateSync P := withConfig 30_000_000_000 10

def isSyncing (s : StateSync P) : Bool :=
  match s.state with
  | .idle | .synced _ => false
  | _ => true

def requestSnapshot (sequence : UInt64) (peerId : P.PeerId) (requestedAt : Instant)
    (s : StateSync P) : Except NetworkError Unit × StateSync P :=
  if s.maxConcurrentRequests.toNat ≤ s.pendingSnapshotRequests.len then
    (.error (.other "Too many concurrent requests"), s)
  else
    let request : SnapshotRequest P := { sequence, peerId, requestedAt, retries := 0 }
    (.ok (), { s with
      pendingSnapshotRequests := s.pendingSnapshotRequests.insert sequence request })

def startSnapshotDownload (targetSequence : UInt64) (peerId : P.PeerId)
    (startedAt requestedAt : Instant) (s : StateSync P) :
    Except NetworkError Unit × StateSync P :=
  if s.isSyncing then (.error (.other "Already syncing"), s)
  else
    requestSnapshot targetSequence peerId requestedAt
      { s with state := .downloadingSnapshot targetSequence startedAt }

/-- A snapshot is stored whoever sent it; a sender other than the one asked is only logged. -/
def handleSnapshot (snapshot : P.Snapshot) (peerId : P.PeerId) (receivedAt : Instant)
    (s : StateSync P) : Except NetworkError (SyncAction P) × StateSync P :=
  let sequence := P.sequenceNumber snapshot
  let pending : PendingSnapshot P := { snapshot, peerId, receivedAt }
  (.ok (.verifySnapshot snapshot), { s with
    pendingSnapshotRequests := s.pendingSnapshotRequests.erase sequence
    pendingSnapshots := s.pendingSnapshots.insert sequence pending
    state := .verifyingSnapshot sequence })

/-- The digests of a snapshot that no downloaded transaction has, in the snapshot's order. -/
def missingTransactions (s : StateSync P) (snapshot : P.Snapshot) : List P.TransactionDigest :=
  (P.transactions snapshot).filter (fun d => (s.downloadedTransactions.lookup d).isNone)

def completeSnapshotVerification (sequence : UInt64) (valid : Bool) (startedAt : Instant)
    (s : StateSync P) : Except NetworkError (SyncAction P) × StateSync P :=
  if valid then
    match s.pendingSnapshots.lookup sequence with
    | none => (.error (.other s!"Snapshot {sequence} not found"), s)
    | some pending =>
        let removed := { s with pendingSnapshots := s.pendingSnapshots.erase sequence }
        if s.missingTransactions pending.snapshot = [] then
          (.ok (.applySnapshot pending.snapshot), { removed with state := .synced sequence })
        else
          (.ok (.applySnapshot pending.snapshot), { removed with
            state := .downloadingTransactions sequence sequence startedAt })
  else
    (.ok .none, { s with
      pendingSnapshots := s.pendingSnapshots.erase sequence
      state := .idle })

def requestTransactions (checks : OverflowChecks) (fromSequence toSequence : UInt64)
    (peerId : P.PeerId) (requestedAt : Instant) (s : StateSync P) :
    Option (Except NetworkError Unit × StateSync P) :=
  if s.maxConcurrentRequests.toNat ≤ s.pendingTransactionRequests.len then
    some (.error (.other "Too many concurrent requests"), s)
  else
    let id := s.nextRequestId
    (checks.add id 1).map fun next =>
      let request : TransactionRequest P :=
        { id, fromSequence, toSequence, peerId, requestedAt, retries := 0 }
      (.ok (), { s with
        nextRequestId := next
        pendingTransactionRequests := s.pendingTransactionRequests.insert id request })

def startTransactionDownload (checks : OverflowChecks) (fromSequence toSequence : UInt64)
    (peerId : P.PeerId) (startedAt requestedAt : Instant) (s : StateSync P) :
    Option (Except NetworkError Unit × StateSync P) :=
  requestTransactions checks fromSequence toSequence peerId requestedAt
    { s with state := .downloadingTransactions fromSequence toSequence startedAt }

/-- `(to_sequence - from_sequence + 1) as usize`, on a 64-bit target. -/
def expectedCount (checks : OverflowChecks) (fromSequence toSequence : UInt64) : Option ℕ := do
  let difference ← checks.sub toSequence fromSequence
  let count ← checks.add difference 1
  pure count.toNat

/-- Each transaction is inserted under its own digest, one after the other. -/
def storeTransactions (transactions : List P.Transaction)
    (store : HashMap P.TransactionDigest P.Transaction) :
    HashMap P.TransactionDigest P.Transaction :=
  KeyedStore.store P.digest transactions store

def handleTransactions (checks : OverflowChecks) (transactions : List P.Transaction)
    (_peerId : P.PeerId) (order : Enumeration P.Transaction) (s : StateSync P) :
    Option (Except NetworkError (SyncAction P) × StateSync P) :=
  let stored := { s with
    downloadedTransactions := storeTransactions transactions s.downloadedTransactions }
  match s.state with
  | .downloadingTransactions fromSequence toSequence _ =>
      (expectedCount checks fromSequence toSequence).map fun expected =>
        if expected ≤ stored.downloadedTransactions.len then
          (.ok (.applyTransactions (order.arrange stored.downloadedTransactions.values)),
            { stored with
              state := .applyingTransactions stored.downloadedTransactions.len
              downloadedTransactions := ∅ })
        else (.ok .none, stored)
  | _ => some (.ok .none, stored)

def completeTransactionApplication (sequence : UInt64) (s : StateSync P) :
    Except NetworkError Unit × StateSync P :=
  (.ok (), { s with state := .synced sequence })

/-- What `handle_timeouts` reads besides the machine: the clock at its start and at
each reissue, and the traversal order of the two request maps. -/
structure TimeoutReadings (P : Platform) where
  now : Instant
  snapshotReissuedAt : UInt64 → Instant
  transactionReissuedAt : TransactionRequestId → Instant
  snapshotOrder : Enumeration (Sigma fun _ : UInt64 => SnapshotRequest P)
  transactionOrder : Enumeration (Sigma fun _ : TransactionRequestId => TransactionRequest P)

def sweepSnapshotRequests (readings : TimeoutReadings P) (s : StateSync P) :
    RetryTable.Sweep UInt64 (SnapshotRequest P) :=
  RetryTable.sweep maxRetries s.timeout readings.now readings.snapshotReissuedAt
    readings.snapshotOrder s.pendingSnapshotRequests

def sweepTransactionRequests (readings : TimeoutReadings P) (s : StateSync P) :
    RetryTable.Sweep TransactionRequestId (TransactionRequest P) :=
  RetryTable.sweep maxRetries s.timeout readings.now readings.transactionReissuedAt
    readings.transactionOrder s.pendingTransactionRequests

/-- Either loop sets the state to `Idle` at each request it gives up. -/
def handleTimeouts (readings : TimeoutReadings P) (s : StateSync P) :
    List (SyncAction P) × StateSync P :=
  let snapshots := s.sweepSnapshotRequests readings
  let transactions := s.sweepTransactionRequests readings
  (snapshots.retried.map (fun e => .retrySnapshotRequest e.1 e.2.peerId) ++
      transactions.retried.map
        (fun e => .retryTransactionRequest e.2.fromSequence e.2.toSequence e.2.peerId),
    { s with
      pendingSnapshotRequests := snapshots.table
      pendingTransactionRequests := transactions.table
      state := if snapshots.abandoned = [] ∧ transactions.abandoned = [] then s.state else .idle })

def getProgress (checks : OverflowChecks) (s : StateSync P) : Option SyncProgress :=
  match s.state with
  | .idle => some ⟨"idle", .finite 0, 0⟩
  | .downloadingSnapshot _ _ =>
      some ⟨"downloading_snapshot", .finite (1 / 2), s.pendingSnapshotRequests.len⟩
  | .verifyingSnapshot _ => some ⟨"verifying_snapshot", .finite (3 / 4), 0⟩
  | .downloadingTransactions fromSequence toSequence _ =>
      (expectedCount checks fromSequence toSequence).map fun expected =>
        let downloaded := Binary64.round s.downloadedTransactions.len
        let progress := (Binary64.div downloaded (Binary64.round expected)).min 1
        ⟨"downloading_transactions", progress, s.pendingTransactionRequests.len⟩
  -- the float nearest to 0.95
  | .applyingTransactions _ =>
      some ⟨"applying_transactions", .finite (8556839292003942 / 2 ^ 53), 0⟩
  | .synced sequence => some ⟨s!"synced (sequence: {sequence})", .finite 1, 0⟩

def reset (s : StateSync P) : StateSync P :=
  { s with
    state := .idle
    pendingSnapshotRequests := ∅
    pendingTransactionRequests := ∅
    pendingSnapshots := ∅
    downloadedTransactions := ∅ }

end StateSync

/-! ## The machine -/

/-- A call of a public operation, with the clock readings and the traversal orders it meets. -/
inductive SyncEvent (P : Platform) where
  | startSnapshotDownload (targetSequence : UInt64) (peerId : P.PeerId)
      (startedAt requestedAt : Instant)
  | handleSnapshot (snapshot : P.Snapshot) (peerId : P.PeerId) (receivedAt : Instant)
  | completeSnapshotVerification (sequence : UInt64) (valid : Bool) (startedAt : Instant)
  | startTransactionDownload (fromSequence toSequence : UInt64) (peerId : P.PeerId)
      (startedAt requestedAt : Instant)
  | handleTransactions (transactions : List P.Transaction) (peerId : P.PeerId)
      (order : Enumeration P.Transaction)
  | completeTransactionApplication (sequence : UInt64)
  | handleTimeouts (readings : StateSync.TimeoutReadings P)
  | reset

def SyncEvent.IsVerdict {P : Platform} : SyncEvent P → Prop
  | .completeSnapshotVerification .. => True
  | _ => False

inductive SyncResult (P : Platform) where
  | unit (result : Except NetworkError Unit)
  | action (result : Except NetworkError (SyncAction P))
  | actions (emitted : List (SyncAction P))
  | nothing

/-- The actions that a call hands to its caller. -/
def SyncResult.emitted {P : Platform} : SyncResult P → List (SyncAction P)
  | .action (.ok a) => [a]
  | .actions as => as
  | _ => []

/-- The snapshots that a call asks its caller to verify. -/
def SyncResult.verifying {P : Platform} (r : SyncResult P) : List P.Snapshot :=
  r.emitted.filterMap fun
    | .verifySnapshot snapshot => some snapshot
    | _ => none

def SyncResult.IsErr {P : Platform} : SyncResult P → Prop
  | .unit (.error _) | .action (.error _) => True
  | _ => False

def syncStep {P : Platform} (checks : OverflowChecks) (s : StateSync P) :
    SyncEvent P → Option (SyncResult P × StateSync P)
  | .startSnapshotDownload target peer startedAt requestedAt =>
      some ((s.startSnapshotDownload target peer startedAt requestedAt).map .unit id)
  | .handleSnapshot snapshot peer receivedAt =>
      some ((s.handleSnapshot snapshot peer receivedAt).map .action id)
  | .completeSnapshotVerification sequence valid startedAt =>
      some ((s.completeSnapshotVerification sequence valid startedAt).map .action id)
  | .startTransactionDownload fromSequence toSequence peer startedAt requestedAt =>
      (s.startTransactionDownload checks fromSequence toSequence peer startedAt requestedAt).map
        (Prod.map .unit id)
  | .handleTransactions transactions peer order =>
      (s.handleTransactions checks transactions peer order).map (Prod.map .action id)
  | .completeTransactionApplication sequence =>
      some ((s.completeTransactionApplication sequence).map .unit id)
  | .handleTimeouts readings => some ((s.handleTimeouts readings).map .actions id)
  | .reset => some (.nothing, s.reset)

def syncMachine (P : Platform) (checks : OverflowChecks) :
    Machine (StateSync P) (SyncEvent P) (SyncResult P) where
  step := syncStep checks

abbrev SyncCall (P : Platform) : Type := Call (StateSync P) (SyncEvent P) (SyncResult P)

end SilverNetwork
