import SilverNetwork.Foundations.Codec
import SilverNetwork.Foundations.DashMap
import SilverNetwork.Foundations.LockInterleaving
import SilverNetwork.Foundations.LockedObject
import SilverNetwork.Foundations.Overflow
import SilverNetwork.Model.Platform

/-! The mining pool. Its operations are lock programs: two sharded maps and a lock around
the statistics. A guard that lives to the end of a function spans the rest of its body. -/

namespace SilverNetwork

structure WorkPackage where
  workId : UInt64
  header : Bytes
  target : UInt64
  chainId : UInt32
  createdAt : UInt64
  deriving DecidableEq

structure MinerShare where
  workId : UInt64
  nonce : UInt64
  minerAddress : Bytes
  submittedAt : UInt64
  deriving DecidableEq

structure MinerAccount where
  address : Bytes
  totalShares : UInt64
  validShares : UInt64
  invalidShares : UInt64
  lastActivity : Instant
  deriving DecidableEq

structure PoolStats where
  totalWorkPackages : UInt64
  totalShares : UInt64
  validShares : UInt64
  invalidShares : UInt64
  activeMiners : ℕ
  deriving DecidableEq

structure MiningPoolManager where
  workPackages : HashMap UInt64 WorkPackage
  miners : HashMap Bytes MinerAccount
  stats : PoolStats
  nextWorkId : UInt64

namespace MinerAccount

def new (address : Bytes) (now : Instant) : MinerAccount := ⟨address, 0, 0, 0, now⟩

def recordValidShare (checks : OverflowChecks) (now : Instant) (account : MinerAccount) :
    Option MinerAccount := do
  let totalShares ← checks.add account.totalShares 1
  let validShares ← checks.add account.validShares 1
  pure { account with totalShares, validShares, lastActivity := now }

end MinerAccount

/-- How the two maps are sharded, which the hash function and the processor count decide. -/
structure PoolLayout where
  workShards : ℕ
  minerShards : ℕ
  workShard : UInt64 → Fin workShards
  minerShard : Bytes → Fin minerShards

inductive PoolLock (L : PoolLayout) where
  | workPackages (shard : Fin L.workShards)
  | miners (shard : Fin L.minerShards)
  | stats
  deriving DecidableEq

abbrev PoolProgram (L : PoolLayout) (α : Type) : Type :=
  LockProgram (PoolLock L) MiningPoolManager α

namespace MiningPoolManager

open LockProgram

variable {L : PoolLayout}

def new : MiningPoolManager where
  workPackages := ∅
  miners := ∅
  stats := ⟨0, 0, 0, 0, 0⟩
  nextWorkId := 1

def workMap (L : PoolLayout) :
    DashMap (PoolLock L) MiningPoolManager UInt64 WorkPackage where
  shards := L.workShards
  shardOf := L.workShard
  lock := .workPackages
  get := workPackages
  set m pool := { pool with workPackages := m }

def minerMap (L : PoolLayout) :
    DashMap (PoolLock L) MiningPoolManager Bytes MinerAccount where
  shards := L.minerShards
  shardOf := L.minerShard
  lock := .miners
  get := miners
  set m pool := { pool with miners := m }

@[simp] theorem workMap_lock (i : Fin (workMap L).shards) :
    (workMap L).lock i = .workPackages i := rfl

@[simp] theorem minerMap_lock (i : Fin (minerMap L).shards) :
    (minerMap L).lock i = .miners i := rfl

/-- The atomic `fetch_add`, which wraps under either build setting. -/
def fetchAddWorkId : PoolProgram L UInt64 :=
  .step (fun pool => some { pool with nextWorkId := pool.nextWorkId + 1 })
    fun pool => .done pool.nextWorkId

def updateStats (f : PoolStats → Option PoolStats) : PoolProgram L Unit :=
  update fun pool => (f pool.stats).map fun stats => { pool with stats }

def distributeWork (checks : OverflowChecks) (header : Bytes) (target : UInt64)
    (chainId : UInt32) (createdAt : UInt64) : PoolProgram L WorkPackage := do
  let workId ← fetchAddWorkId
  let work : WorkPackage := { workId, header, target, chainId, createdAt }
  (workMap L).insert workId work
  guarded .stats do
    updateStats fun stats => do
      let totalWorkPackages ← checks.add stats.totalWorkPackages 1
      pure { stats with totalWorkPackages }
    pure work

/-- What `submit_share` does while it holds the guard of the miner's entry. -/
def recordShare (checks : OverflowChecks) (address : Bytes) (recordedAt : Instant) :
    PoolProgram L Bool := do
  (minerMap L).modify address (MinerAccount.recordValidShare checks recordedAt)
  guarded .stats do
    updateStats fun stats => do
      let totalShares ← checks.add stats.totalShares 1
      pure { stats with totalShares }
    updateStats fun stats => do
      let validShares ← checks.add stats.validShares 1
      pure { stats with validShares }
    let activeMiners ← (minerMap L).len
    updateStats fun stats => some { stats with activeMiners }
    pure true

def submitShare (checks : OverflowChecks) (share : MinerShare) (openedAt recordedAt : Instant) :
    PoolProgram L Bool := do
  let live ← (workMap L).containsKey share.workId
  if live then
    (minerMap L).withEntry share.minerAddress (.new share.minerAddress openedAt)
      (recordShare checks share.minerAddress recordedAt)
  else pure false

def getMiner (address : Bytes) : PoolProgram L (Option MinerAccount) :=
  (minerMap L).find address

def getStats : PoolProgram L PoolStats := guarded .stats (gets stats)

def cleanupOldWork (checks : OverflowChecks) (maxAgeSecs now : UInt64) :
    PoolProgram L Unit :=
  (workMap L).retain fun work =>
    (checks.sub now work.createdAt).map fun age => decide (age < maxAgeSecs)

def activeMinerCount : PoolProgram L ℕ := (minerMap L).len

end MiningPoolManager

/-! ## The calls of a pool -/

inductive PoolCall where
  | distributeWork (header : Bytes) (target : UInt64) (chainId : UInt32) (createdAt : UInt64)
  | submitShare (share : MinerShare) (openedAt recordedAt : Instant)
  | getMiner (address : Bytes)
  | getStats
  | cleanupOldWork (maxAgeSecs now : UInt64)
  | activeMinerCount

inductive PoolResult where
  | work (package : WorkPackage)
  | accepted (valid : Bool)
  | miner (account : Option MinerAccount)
  | stats (stats : PoolStats)
  | cleaned
  | count (miners : ℕ)
  deriving DecidableEq

namespace MiningPoolManager

/-- The program that one call of the pool runs. -/
def perform {L : PoolLayout} (checks : OverflowChecks) :
    PoolCall → PoolProgram L PoolResult
  | .distributeWork header target chainId createdAt =>
      .work <$> distributeWork checks header target chainId createdAt
  | .submitShare share openedAt recordedAt =>
      .accepted <$> submitShare checks share openedAt recordedAt
  | .getMiner address => .miner <$> getMiner address
  | .getStats => .stats <$> getStats
  | .cleanupOldWork maxAgeSecs now => (fun _ => .cleaned) <$> cleanupOldWork checks maxAgeSecs now
  | .activeMinerCount => .count <$> activeMinerCount

end MiningPoolManager

/-- The pool with its locks left out: each call is one step. -/
def poolMachine (L : PoolLayout) (checks : OverflowChecks) :
    Machine MiningPoolManager PoolCall PoolResult where
  step pool c := (MiningPoolManager.perform (L := L) checks c).unlocked pool

/-- The pool as several callers see it, where each operation on the counter or on a shard is a step
of its own. A sweep that panics has removed some of the packages before, so that any packages may
go at any time. -/
def sharedPool (L : PoolLayout) (checks : OverflowChecks) :
    SharedObject MiningPoolManager Unit (UInt64 → Bool) PoolCall PoolResult
      (MiningPoolManager → Option MiningPoolManager) fun _ => MiningPoolManager :=
  LockProgram.object (MiningPoolManager.perform (L := L) checks) fun kept pool =>
    { pool with workPackages := HashMap.retain pool.workPackages fun id _ => kept id }

/-- The pool as several callers see it with its locks, each of which one caller holds at a time. -/
def lockedPool (L : PoolLayout) (checks : OverflowChecks) :
    LockedObject (PoolLock L) MiningPoolManager (UInt64 → Bool) PoolCall PoolResult where
  excludes lock lock' := decide (lock = lock')
  program := MiningPoolManager.perform checks
  elapse kept pool :=
    { pool with workPackages := HashMap.retain pool.workPackages fun id _ => kept id }

end SilverNetwork
