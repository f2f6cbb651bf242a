import Mathlib.Data.UInt

/-! What the crate takes from `silver_core`, `libp2p` and the clock. -/

namespace SilverNetwork

/-- A monotonic clock reading, in nanoseconds from an arbitrary origin. -/
abbrev Instant : Type := ℕ

/-- A length of time in nanoseconds. -/
abbrev Duration : Type := ℕ

/-- A reading of the wall clock, in nanoseconds from the Unix epoch. -/
abbrev SystemTime : Type := ℤ

/-- `duration_since(UNIX_EPOCH).unwrap_or_default()`. -/
def SystemTime.sinceEpoch (time : SystemTime) : Duration := time.toNat

/-- The types that other crates supply, with the fields and methods read here. -/
structure Platform where
  PeerId : Type
  Snapshot : Type
  Transaction : Type
  TransactionDigest : Type
  sequenceNumber : Snapshot → UInt64
  transactions : Snapshot → List TransactionDigest
  digest : Transaction → TransactionDigest
  digestDecEq : DecidableEq TransactionDigest

instance (P : Platform) : DecidableEq P.TransactionDigest := P.digestDecEq

structure PlainSnapshot where
  content : ℕ
  sequenceNumber : UInt64
  transactions : List ℕ
  deriving DecidableEq

/-- A platform small enough to evaluate runs on. A transaction is its own digest. -/
abbrev Platform.plain : Platform where
  PeerId := ℕ
  Snapshot := PlainSnapshot
  Transaction := ℕ
  TransactionDigest := ℕ
  sequenceNumber := PlainSnapshot.sequenceNumber
  transactions := PlainSnapshot.transactions
  digest := id
  digestDecEq := inferInstance

end SilverNetwork
