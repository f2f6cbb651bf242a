import SilverNetwork.Foundations.HashMap
import SilverNetwork.Foundations.Machine
import SilverNetwork.Foundations.Overflow
import SilverNetwork.Model.Platform

/-! The peers of a node, with their connection status and reputation, as a single caller sees
them. A traversal of the peers visits them in an order of its own. -/

namespace SilverNetwork

namespace Peer

inductive PeerStatus where
  | connecting
  | connected
  | disconnected
  | banned
  deriving DecidableEq, Repr

structure PeerInfo (PeerId Multiaddr : Type) where
  peerId : PeerId
  addresses : List Multiaddr
  status : PeerStatus
  lastSeen : Instant
  messagesSent : UInt64
  messagesReceived : UInt64
  reputation : UInt8
  isMiningPool : Bool
  protocolVersion : Option String
  agentVersion : Option String
  deriving DecidableEq

variable {PeerId Multiaddr : Type}

namespace PeerInfo

def new (peerId : PeerId) (now : Instant) : PeerInfo PeerId Multiaddr where
  peerId := peerId
  addresses := []
  status := .connecting
  lastSeen := now
  messagesSent := 0
  messagesReceived := 0
  reputation := 50
  isMiningPool := false
  protocolVersion := none
  agentVersion := none

def updateLastSeen (now : Instant) (info : PeerInfo PeerId Multiaddr) :
    PeerInfo PeerId Multiaddr :=
  { info with lastSeen := now }

def incrementSent (info : PeerInfo PeerId Multiaddr) : PeerInfo PeerId Multiaddr :=
  { info with messagesSent := Saturating.add64 info.messagesSent 1 }

def incrementReceived (info : PeerInfo PeerId Multiaddr) : PeerInfo PeerId Multiaddr :=
  { info with messagesReceived := Saturating.add64 info.messagesReceived 1 }

def increaseReputation (amount : UInt8) (info : PeerInfo PeerId Multiaddr) :
    PeerInfo PeerId Multiaddr :=
  { info with reputation := min (Saturating.add info.reputation amount) 100 }

def decreaseReputation (amount : UInt8) (info : PeerInfo PeerId Multiaddr) :
    PeerInfo PeerId Multiaddr :=
  { info with reputation := Saturating.sub info.reputation amount }

def isHealthy (info : PeerInfo PeerId Multiaddr) : Bool :=
  info.status = .connected && 30 ≤ info.reputation

def shouldBan (info : PeerInfo PeerId Multiaddr) : Bool := info.reputation < 10

end PeerInfo

structure PeerManager (PeerId Multiaddr : Type) where
  peers : HashMap PeerId (PeerInfo PeerId Multiaddr)
  maxPeers : ℕ
  minPeers : ℕ
  timeout : Duration

structure PeerStats where
  total : ℕ
  connected : ℕ
  miningPools : ℕ
  banned : ℕ
  deriving DecidableEq

namespace PeerManager

def new (maxPeers minPeers : ℕ) (timeout : Duration) : PeerManager PeerId Multiaddr where
  peers := ∅
  maxPeers := maxPeers
  minPeers := minPeers
  timeout := timeout

def connectedPeers (order : Enumeration (PeerInfo PeerId Multiaddr))
    (m : PeerManager PeerId Multiaddr) : List PeerId :=
  ((order.arrange m.peers.values).filter fun info => info.status = .connected).map PeerInfo.peerId

def miningPoolPeers (order : Enumeration (PeerInfo PeerId Multiaddr))
    (m : PeerManager PeerId Multiaddr) : List PeerId :=
  ((order.arrange m.peers.values).filter fun info =>
    info.isMiningPool && info.status = .connected).map PeerInfo.peerId

def connectedCount (m : PeerManager PeerId Multiaddr) : ℕ :=
  m.peers.values.countP fun info => info.status = .connected

def needsMorePeers (m : PeerManager PeerId Multiaddr) : Bool := m.connectedCount < m.minPeers

def hasTooManyPeers (m : PeerManager PeerId Multiaddr) : Bool := m.maxPeers < m.connectedCount

def getStats (m : PeerManager PeerId Multiaddr) : PeerStats where
  total := m.peers.len
  connected := m.connectedCount
  miningPools := (m.miningPoolPeers (.stored _)).length
  banned := m.peers.values.countP fun info => info.status = .banned

variable [DecidableEq PeerId]

def addPeer (peer : PeerId) (now : Instant) (m : PeerManager PeerId Multiaddr) :
    Bool × PeerManager PeerId Multiaddr :=
  if m.maxPeers ≤ m.peers.len then (false, m)
  else if peer ∈ m.peers then (false, m)
  else (true, { m with peers := m.peers.insert peer (.new peer now) })

def removePeer (peer : PeerId) (m : PeerManager PeerId Multiaddr) :
    Option (PeerInfo PeerId Multiaddr) × PeerManager PeerId Multiaddr :=
  (m.peers.lookup peer, { m with peers := m.peers.erase peer })

def getPeer (peer : PeerId) (m : PeerManager PeerId Multiaddr) :
    Option (PeerInfo PeerId Multiaddr) :=
  m.peers.lookup peer

/-- `if let Some(mut peer) = self.peers.get_mut(peer_id)`, for a body that updates the entry. -/
def getMut (peer : PeerId) (body : PeerInfo PeerId Multiaddr → PeerInfo PeerId Multiaddr)
    (m : PeerManager PeerId Multiaddr) : PeerManager PeerId Multiaddr :=
  match m.peers.lookup peer with
  | none => m
  | some info => { m with peers := m.peers.insert peer (body info) }

def updatePeerStatus (peer : PeerId) (status : PeerStatus) (now : Instant) :
    PeerManager PeerId Multiaddr → PeerManager PeerId Multiaddr :=
  getMut peer fun info => { info with status }.updateLastSeen now

def updatePeerAddresses (peer : PeerId) (addresses : List Multiaddr) (now : Instant) :
    PeerManager PeerId Multiaddr → PeerManager PeerId Multiaddr :=
  getMut peer fun info => { info with addresses }.updateLastSeen now

def updatePeerProtocol (peer : PeerId) (protocolVersion agentVersion : String) (now : Instant) :
    PeerManager PeerId Multiaddr → PeerManager PeerId Multiaddr :=
  getMut peer fun info =>
    { info with
      protocolVersion := some protocolVersion
      agentVersion := some agentVersion }.updateLastSeen now

def markAsMiningPool (peer : PeerId) :
    PeerManager PeerId Multiaddr → PeerManager PeerId Multiaddr :=
  getMut peer fun info => { info with isMiningPool := true }

def recordMessageSent (peer : PeerId) (now : Instant) :
    PeerManager PeerId Multiaddr → PeerManager PeerId Multiaddr :=
  getMut peer fun info => info.incrementSent.updateLastSeen now

def recordMessageReceived (peer : PeerId) (now : Instant) :
    PeerManager PeerId Multiaddr → PeerManager PeerId Multiaddr :=
  getMut peer fun info => info.incrementReceived.updateLastSeen now

def increaseReputation (peer : PeerId) (amount : UInt8) :
    PeerManager PeerId Multiaddr → PeerManager PeerId Multiaddr :=
  getMut peer (PeerInfo.increaseReputation amount)

def decreaseReputation (peer : PeerId) (amount : UInt8) :
    PeerManager PeerId Multiaddr → PeerManager PeerId Multiaddr :=
  getMut peer fun info =>
    let info := info.decreaseReputation amount
    if info.shouldBan then { info with status := .banned } else info

def banPeer (peer : PeerId) : PeerManager PeerId Multiaddr → PeerManager PeerId Multiaddr :=
  getMut peer fun info => { info with status := .banned, reputation := 0 }

/-- The peer is connected and has been silent for longer than the timeout. -/
def timedOut (now : Instant) (m : PeerManager PeerId Multiaddr)
    (info : PeerInfo PeerId Multiaddr) : Bool :=
  info.status = .connected && m.timeout < now - info.lastSeen

def removeTimedOutPeers (order : Enumeration PeerId) (now : Instant)
    (m : PeerManager PeerId Multiaddr) : List PeerId × PeerManager PeerId Multiaddr :=
  (order.arrange (m.peers.keys.filter fun peer => (m.peers.lookup peer).any (m.timedOut now)),
    { m with peers := HashMap.retain m.peers fun _ info => !m.timedOut now info })

end PeerManager

/-! ## The calls of a peer manager -/

inductive PeerEvent (PeerId Multiaddr : Type) where
  | addPeer (peer : PeerId) (now : Instant)
  | removePeer (peer : PeerId)
  | updatePeerStatus (peer : PeerId) (status : PeerStatus) (now : Instant)
  | updatePeerAddresses (peer : PeerId) (addresses : List Multiaddr) (now : Instant)
  | updatePeerProtocol (peer : PeerId) (protocolVersion agentVersion : String) (now : Instant)
  | markAsMiningPool (peer : PeerId)
  | recordMessageSent (peer : PeerId) (now : Instant)
  | recordMessageReceived (peer : PeerId) (now : Instant)
  | increaseReputation (peer : PeerId) (amount : UInt8)
  | decreaseReputation (peer : PeerId) (amount : UInt8)
  | banPeer (peer : PeerId)
  | removeTimedOutPeers (order : Enumeration PeerId) (now : Instant)

inductive PeerResult (PeerId Multiaddr : Type) where
  | added (answer : Bool)
  | removed (info : Option (PeerInfo PeerId Multiaddr))
  | timedOut (peers : List PeerId)
  | done

variable [DecidableEq PeerId]

def peerStep (m : PeerManager PeerId Multiaddr) : PeerEvent PeerId Multiaddr →
    Option (PeerResult PeerId Multiaddr × PeerManager PeerId Multiaddr)
  | .addPeer peer now => some ((m.addPeer peer now).map .added id)
  | .removePeer peer => some ((m.removePeer peer).map .removed id)
  | .updatePeerStatus peer status now => some (.done, m.updatePeerStatus peer status now)
  | .updatePeerAddresses peer addresses now =>
      some (.done, m.updatePeerAddresses peer addresses now)
  | .updatePeerProtocol peer protocolVersion agentVersion now =>
      some (.done, m.updatePeerProtocol peer protocolVersion agentVersion now)
  | .markAsMiningPool peer => some (.done, m.markAsMiningPool peer)
  | .recordMessageSent peer now => some (.done, m.recordMessageSent peer now)
  | .recordMessageReceived peer now => some (.done, m.recordMessageReceived peer now)
  | .increaseReputation peer amount => some (.done, m.increaseReputation peer amount)
  | .decreaseReputation peer amount => some (.done, m.decreaseReputation peer amount)
  | .banPeer peer => some (.done, m.banPeer peer)
  | .removeTimedOutPeers order now => some ((m.removeTimedOutPeers order now).map .timedOut id)

def peerMachine (PeerId Multiaddr : Type) [DecidableEq PeerId] :
    Machine (PeerManager PeerId Multiaddr) (PeerEvent PeerId Multiaddr)
      (PeerResult PeerId Multiaddr) where
  step := peerStep

abbrev PeerCall (PeerId Multiaddr : Type) : Type :=
  Call (PeerManager PeerId Multiaddr) (PeerEvent PeerId Multiaddr) (PeerResult PeerId Multiaddr)

end Peer

end SilverNetwork
