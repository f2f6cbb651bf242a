import SilverNetwork.Verification.MiningPool.Locking
import SilverNetwork.Verification.Sync.Provenance
import SilverNetwork.Verification.Sync.Conservation
import SilverNetwork.Verification.Sync.Completion
import SilverNetwork.Verification.Sync.Timeouts
import SilverNetwork.Verification.Sync.Cycles
import SilverNetwork.Verification.Sync.Outstanding
import SilverNetwork.Verification.Sync.Failures
import SilverNetwork.Verification.Sync.Phases
import SilverNetwork.Verification.Sync.Bookkeeping
import SilverNetwork.Verification.Sync.Ordering
import SilverNetwork.Verification.Sync.Renaming
import SilverNetwork.Verification.Sync.Resetting
import SilverNetwork.Verification.Wire.Publish
import SilverNetwork.Verification.Batching.Format
import SilverNetwork.Verification.Batching.Conservation
import SilverNetwork.Verification.Gossip.Capacity
import SilverNetwork.Verification.Gossip.Horizon
import SilverNetwork.Verification.Gossip.Echo
import SilverNetwork.Verification.Security.RateLimit
import SilverNetwork.Verification.Security.BanExpiry
import SilverNetwork.Verification.ErrorRecovery.Throttling
import SilverNetwork.Verification.Security.BanDuration
import SilverNetwork.Verification.Peer.Banning
import SilverNetwork.Verification.MiningPool.Accounting
import SilverNetwork.Verification.ErrorRecovery.Backoff
import SilverNetwork.Verification.ErrorRecovery.Decisions
import SilverNetwork.Verification.ErrorHandling.Counting
import SilverNetwork.Verification.ValidatorSync.Connecting
import SilverNetwork.Verification.ValidatorSync.Receiving
import SilverNetwork.Verification.ValidatorSync.Sending
import SilverNetwork.Verification.ValidatorSync.SequenceNumbers
import SilverNetwork.Verification.ValidatorSync.Envelopes
import SilverNetwork.Verification.Security.ConcurrentBans
import SilverNetwork.Verification.ErrorHandling.Recovery
import SilverNetwork.Verification.ErrorRecovery.Jitter
import SilverNetwork.Verification.Discovery.Queries
import SilverNetwork.Verification.Peer.Admission
import SilverNetwork.Model.ValidatorTasks
import SilverNetwork.Verification.ValidatorSync.Tasks
import SilverNetwork.Verification.ValidatorSync.Streaks
import SilverNetwork.Verification.ValidatorSync.Broadcasting
import SilverNetwork.Verification.ValidatorSync.Steps
import SilverNetwork.Verification.Security.Decay
import SilverNetwork.Verification.Security.BanViews
import SilverNetwork.Verification.Sync.Ranges
import SilverNetwork.Verification.Sync.OwnAnswers
import SilverNetwork.Verification.Batching.Limits
import SilverNetwork.Verification.Batching.HostileInput
import SilverNetwork.Model.Compressor
import SilverNetwork.Verification.Compression.Lossless
import SilverNetwork.Verification.ErrorHandling.LogHistory
import SilverNetwork.Verification.ErrorHandling.Pipeline
import SilverNetwork.Verification.Discovery.Providers
import SilverNetwork.Verification.ValidatorSync.Records
import SilverNetwork.Verification.ValidatorSync.Retrying
import SilverNetwork.Verification.ValidatorSync.BroadcastResults
import SilverNetwork.Verification.Gossip.PublishPaths
import SilverNetwork.Verification.MiningPool.Cleaning
import SilverNetwork.Foundations.Tickets
import SilverNetwork.Verification.MiningPool.WorkIds
import SilverNetwork.Verification.MiningPool.LiveWork
import SilverNetwork.Model.ValidatorHandshake
import SilverNetwork.Verification.ValidatorSync.Handshake
import SilverNetwork.Verification.ValidatorSync.HandshakeOutcome
import SilverNetwork.Foundations.LateWindow
import SilverNetwork.Model.ConcurrentLimiter
import SilverNetwork.Verification.Security.ConcurrentLimiter
import SilverNetwork.Foundations.LockedObject
import SilverNetwork.Foundations.LockOrder
import SilverNetwork.Foundations.Linearizable
import SilverNetwork.Model.ConcurrentRecovery
import SilverNetwork.Verification.ErrorRecovery.Linearizing
import SilverNetwork.Verification.ErrorRecovery.Returning
import SilverNetwork.Verification.MiningPool.Wedging
import SilverNetwork.Foundations.Accounting
import SilverNetwork.Model.ConcurrentLogger
import SilverNetwork.Verification.ErrorHandling.ConcurrentLogging
import SilverNetwork.Verification.ValidatorSync.Accounts
import SilverNetwork.Verification.ValidatorSync.BroadcastAccounts
import SilverNetwork.Foundations.RetryLifetime
import SilverNetwork.Verification.Sync.Endings
import SilverNetwork.Foundations.RoundingOrder
import SilverNetwork.Verification.Sync.Progress
import SilverNetwork.Model.ConcurrentNetwork
import SilverNetwork.Verification.ValidatorSync.Waiting
import SilverNetwork.Verification.ValidatorSync.Sections
