import Mathlib.Data.List.Destutter
import SilverNetwork.Foundations.Codec
import SilverNetwork.Foundations.HashMap
import SilverNetwork.Foundations.Machine
import SilverNetwork.Model.Error

/-! Peer discovery, which remembers what each query of the distributed hash table was started for
and turns the results of the queries into answers. -/

namespace SilverNetwork

namespace Discovery

/-- What `libp2p` supplies, with the bytes by which peers are ordered and the text that `Debug`
prints for a query. -/
structure Kademlia where
  QueryId : Type
  PeerId : Type
  Multiaddr : Type
  toBytes : PeerId → Bytes
  debug : QueryId → String
  queryIdDecEq : DecidableEq QueryId
  peerIdDecEq : DecidableEq PeerId

instance (K : Kademlia) : DecidableEq K.QueryId := K.queryIdDecEq

instance (K : Kademlia) : DecidableEq K.PeerId := K.peerIdDecEq

/-- A hash table small enough to evaluate runs on. A peer is its own byte. -/
abbrev Kademlia.plain : Kademlia where
  QueryId := ℕ
  PeerId := UInt8
  Multiaddr := ℕ
  toBytes peer := [peer]
  debug := toString
  queryIdDecEq := inferInstance
  peerIdDecEq := inferInstance

variable {K : Kademlia}

inductive DiscoveryQuery (K : Kademlia) where
  | bootstrap
  | findPeer (peer : K.PeerId)
  | getProviders (key : Bytes)

/-- `GetProvidersOk`. A set of peers is given in the order of its traversal. -/
inductive ProvidersFound (K : Kademlia) where
  | foundProviders (providers : List K.PeerId)
  | finishedWithNoAdditionalRecord (closestPeers : List K.PeerId)

/-- `QueryResult`, with an error given by the text that `Debug` prints for it. -/
inductive QueryResult (K : Kademlia) where
  | bootstrap (result : Except String UInt32)
  | getClosestPeers (result : Except String (List K.PeerId))
  | getProviders (result : Except String (ProvidersFound K))
  | other

inductive DiscoveryResult (K : Kademlia) where
  | bootstrap (numPeers : UInt64)
  | findPeer (target : K.PeerId) (peers : List K.PeerId)
  | getProviders (key : Bytes) (providers : List K.PeerId)

structure PeerDiscovery (K : Kademlia) where
  pendingQueries : HashMap K.QueryId (DiscoveryQuery K)
  bootstrapPeers : List (K.PeerId × K.Multiaddr)
  lastBootstrap : Option Instant
  bootstrapInterval : UInt64

def ProvidersFound.peers : ProvidersFound K → List K.PeerId
  | .foundProviders providers => providers
  | .finishedWithNoAdditionalRecord closestPeers => closestPeers

/-- The providers sorted by their bytes, without the repetitions that then stand side by side. -/
def sortProviders (providers : List K.PeerId) : List K.PeerId :=
  (providers.mergeSort fun a b => decide (K.toBytes a ≤ K.toBytes b)).destutter (· ≠ ·)

/-- What a query is told by a result. -/
def answer (query : DiscoveryQuery K) (result : QueryResult K) :
    Except NetworkError (DiscoveryResult K) :=
  match query, result with
  | .bootstrap, .bootstrap (.ok numRemaining) => .ok (.bootstrap numRemaining.toUInt64)
  | .bootstrap, .bootstrap (.error e) => .error (.discovery ("Bootstrap failed: " ++ e))
  | .findPeer target, .getClosestPeers (.ok peers) => .ok (.findPeer target peers)
  | .findPeer _, .getClosestPeers (.error e) => .error (.discovery ("Find peer failed: " ++ e))
  | .getProviders key, .getProviders (.ok found) =>
      .ok (.getProviders key (sortProviders found.peers))
  | .getProviders _, .getProviders (.error e) =>
      .error (.discovery ("Get providers failed: " ++ e))
  | _, _ => .error (.discovery "Unexpected query result")

namespace PeerDiscovery

def new (bootstrapPeers : List (K.PeerId × K.Multiaddr)) : PeerDiscovery K where
  pendingQueries := ∅
  bootstrapPeers := bootstrapPeers
  lastBootstrap := none
  bootstrapInterval := 300

def addBootstrapPeer (peer : K.PeerId) (address : K.Multiaddr) (d : PeerDiscovery K) :
    PeerDiscovery K :=
  { d with bootstrapPeers := d.bootstrapPeers ++ [(peer, address)] }

def startBootstrap (queryId : K.QueryId) (now : Instant) (d : PeerDiscovery K) :
    PeerDiscovery K :=
  { d with
    pendingQueries := d.pendingQueries.insert queryId .bootstrap
    lastBootstrap := some now }

def startFindPeer (queryId : K.QueryId) (peer : K.PeerId) (d : PeerDiscovery K) :
    PeerDiscovery K :=
  { d with pendingQueries := d.pendingQueries.insert queryId (.findPeer peer) }

def startGetProviders (queryId : K.QueryId) (key : Bytes) (d : PeerDiscovery K) :
    PeerDiscovery K :=
  { d with pendingQueries := d.pendingQueries.insert queryId (.getProviders key) }

def unknownQuery (queryId : K.QueryId) : NetworkError :=
  .discovery ("Unknown query ID: " ++ K.debug queryId)

def handleQueryResult (queryId : K.QueryId) (result : QueryResult K) (d : PeerDiscovery K) :
    Except NetworkError (DiscoveryResult K) × PeerDiscovery K :=
  match d.pendingQueries.lookup queryId with
  | none => (.error (unknownQuery queryId), d)
  | some query =>
      (answer query result, { d with pendingQueries := d.pendingQueries.erase queryId })

def needsBootstrap (now : Instant) (d : PeerDiscovery K) : Bool :=
  match d.lastBootstrap with
  | none => true
  | some last => d.bootstrapInterval.toNat ≤ (now - last) / 1_000_000_000

def pendingQueriesCount (d : PeerDiscovery K) : ℕ := d.pendingQueries.len

end PeerDiscovery

inductive DiscoveryEvent (K : Kademlia) where
  | addBootstrapPeer (peer : K.PeerId) (address : K.Multiaddr)
  | startBootstrap (queryId : K.QueryId) (now : Instant)
  | startFindPeer (queryId : K.QueryId) (peer : K.PeerId)
  | startGetProviders (queryId : K.QueryId) (key : Bytes)
  | handleQueryResult (queryId : K.QueryId) (result : QueryResult K)
  | needsBootstrap (now : Instant)
  | bootstrapPeers
  | pendingQueriesCount

inductive DiscoveryReply (K : Kademlia) where
  | done
  | answered (answer : Except NetworkError (DiscoveryResult K))
  | needed (answer : Bool)
  | peers (bootstrapPeers : List (K.PeerId × K.Multiaddr))
  | count (pending : ℕ)

def discoveryStep (d : PeerDiscovery K) :
    DiscoveryEvent K → DiscoveryReply K × PeerDiscovery K
  | .addBootstrapPeer peer address => (.done, d.addBootstrapPeer peer address)
  | .startBootstrap queryId now => (.done, d.startBootstrap queryId now)
  | .startFindPeer queryId peer => (.done, d.startFindPeer queryId peer)
  | .startGetProviders queryId key => (.done, d.startGetProviders queryId key)
  | .handleQueryResult queryId result => (d.handleQueryResult queryId result).map .answered id
  | .needsBootstrap now => (.needed (d.needsBootstrap now), d)
  | .bootstrapPeers => (.peers d.bootstrapPeers, d)
  | .pendingQueriesCount => (.count d.pendingQueriesCount, d)

def discoveryMachine (K : Kademlia) :
    Machine (PeerDiscovery K) (DiscoveryEvent K) (DiscoveryReply K) where
  step d e := some (discoveryStep d e)

abbrev DiscoveryCall (K : Kademlia) : Type :=
  Call (PeerDiscovery K) (DiscoveryEvent K) (DiscoveryReply K)

end Discovery

end SilverNetwork
