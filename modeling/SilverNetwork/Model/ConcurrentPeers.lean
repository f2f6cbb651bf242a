import SilverNetwork.Foundations.Interleaving
import SilverNetwork.Model.Peer

/-! The peers of a node, as several callers see them. Each call into the map is one action, with
what it does under the guard of an entry, and so is a reading of the clock that no guard covers. -/

namespace SilverNetwork

namespace Peer

variable {PeerId Multiaddr : Type}

/-- The operations that change the entry of a peer under its guard. -/
inductive PeerUpdate (PeerId Multiaddr : Type) where
  | peerStatus (peer : PeerId) (status : PeerStatus)
  | peerAddresses (peer : PeerId) (addresses : List Multiaddr)
  | peerProtocol (peer : PeerId) (protocolVersion agentVersion : String)
  | markAsMiningPool (peer : PeerId)
  | recordMessageSent (peer : PeerId)
  | recordMessageReceived (peer : PeerId)
  | increaseReputation (peer : PeerId) (amount : UInt8)
  | decreaseReputation (peer : PeerId) (amount : UInt8)
  | banPeer (peer : PeerId)
  deriving DecidableEq

inductive PeerAct (PeerId Multiaddr : Type) where
  | readClock
  | len
  | containsKey (peer : PeerId)
  | insert (peer : PeerId) (info : PeerInfo PeerId Multiaddr)
  | remove (peer : PeerId)
  | get (peer : PeerId)
  | getMut (update : PeerUpdate PeerId Multiaddr)
  | iter
  | retain (now : Instant)
  deriving DecidableEq

@[reducible] def PeerAct.Answer : PeerAct PeerId Multiaddr → Type
  | .readClock => Instant
  | .len => ℕ
  | .containsKey _ => Bool
  | .insert .. => Unit
  | .remove _ => Option (PeerInfo PeerId Multiaddr)
  | .get _ => Option (PeerInfo PeerId Multiaddr)
  | .getMut _ => Unit
  | .iter => List (PeerInfo PeerId Multiaddr)
  | .retain _ => List PeerId

/-- The clock as an action reads it, and the orders in which it visits the entries. -/
structure PeerReadings (PeerId Multiaddr : Type) where
  now : Instant
  order : Enumeration (PeerInfo PeerId Multiaddr)
  removalOrder : Enumeration PeerId

variable [DecidableEq PeerId]

def PeerUpdate.apply (now : Instant) :
    PeerUpdate PeerId Multiaddr → PeerManager PeerId Multiaddr → PeerManager PeerId Multiaddr
  | .peerStatus peer status => PeerManager.updatePeerStatus peer status now
  | .peerAddresses peer addresses => PeerManager.updatePeerAddresses peer addresses now
  | .peerProtocol peer protocolVersion agentVersion =>
      PeerManager.updatePeerProtocol peer protocolVersion agentVersion now
  | .markAsMiningPool peer => PeerManager.markAsMiningPool peer
  | .recordMessageSent peer => PeerManager.recordMessageSent peer now
  | .recordMessageReceived peer => PeerManager.recordMessageReceived peer now
  | .increaseReputation peer amount => PeerManager.increaseReputation peer amount
  | .decreaseReputation peer amount => PeerManager.decreaseReputation peer amount
  | .banPeer peer => PeerManager.banPeer peer

/-- No action panics. -/
def PeerAct.perform (readings : PeerReadings PeerId Multiaddr) (m : PeerManager PeerId Multiaddr) :
    (action : PeerAct PeerId Multiaddr) → action.Answer × PeerManager PeerId Multiaddr
  | .readClock => (readings.now, m)
  | .len => (m.peers.len, m)
  | .containsKey peer => (decide (peer ∈ m.peers), m)
  | .insert peer info => ((), { m with peers := m.peers.insert peer info })
  | .remove peer => m.removePeer peer
  | .get peer => (m.getPeer peer, m)
  | .getMut update => ((), update.apply readings.now m)
  | .iter => (readings.order.arrange m.peers.values, m)
  | .retain now => m.removeTimedOutPeers readings.removalOrder now

abbrev PeerProgram (PeerId Multiaddr : Type) : Type → Type :=
  AtomicProgram (PeerAct PeerId Multiaddr) PeerAct.Answer

namespace PeerProgram

abbrev act (action : PeerAct PeerId Multiaddr) : PeerProgram PeerId Multiaddr action.Answer :=
  AtomicProgram.once action

def addPeer (maxPeers : ℕ) (peer : PeerId) : PeerProgram PeerId Multiaddr Bool := do
  let len ← act .len
  if maxPeers ≤ len then pure false
  else do
    let known ← act (.containsKey peer)
    if known then pure false
    else do
      let now ← act .readClock
      act (.insert peer (.new peer now))
      pure true

def removePeer (peer : PeerId) :
    PeerProgram PeerId Multiaddr (Option (PeerInfo PeerId Multiaddr)) := act (.remove peer)

def getPeer (peer : PeerId) :
    PeerProgram PeerId Multiaddr (Option (PeerInfo PeerId Multiaddr)) := act (.get peer)

def updatePeer (update : PeerUpdate PeerId Multiaddr) : PeerProgram PeerId Multiaddr Unit :=
  act (.getMut update)

def connectedPeers : PeerProgram PeerId Multiaddr (List PeerId) := do
  let infos ← act .iter
  pure ((infos.filter fun info => info.status = .connected).map PeerInfo.peerId)

def miningPoolPeers : PeerProgram PeerId Multiaddr (List PeerId) := do
  let infos ← act .iter
  pure ((infos.filter fun info =>
    info.isMiningPool && info.status = .connected).map PeerInfo.peerId)

def connectedCount : PeerProgram PeerId Multiaddr ℕ := do
  let infos ← act .iter
  pure (infos.countP fun info => info.status = .connected)

def needsMorePeers (minPeers : ℕ) : PeerProgram PeerId Multiaddr Bool := do
  let count ← connectedCount
  pure (count < minPeers)

def hasTooManyPeers (maxPeers : ℕ) : PeerProgram PeerId Multiaddr Bool := do
  let count ← connectedCount
  pure (maxPeers < count)

def removeTimedOutPeers : PeerProgram PeerId Multiaddr (List PeerId) := do
  let now ← act .readClock
  act (.retain now)

def getStats : PeerProgram PeerId Multiaddr PeerStats := do
  let total ← act .len
  let connected ← connectedCount
  let pools ← miningPoolPeers
  let infos ← act .iter
  pure {
    total
    connected
    miningPools := pools.length
    banned := infos.countP fun info => info.status = .banned }

end PeerProgram

inductive PeerOp (PeerId Multiaddr : Type) where
  | addPeer (peer : PeerId)
  | removePeer (peer : PeerId)
  | getPeer (peer : PeerId)
  | updatePeer (update : PeerUpdate PeerId Multiaddr)
  | connectedPeers
  | miningPoolPeers
  | connectedCount
  | needsMorePeers
  | hasTooManyPeers
  | removeTimedOutPeers
  | getStats
  deriving DecidableEq

inductive PeerAnswer (PeerId Multiaddr : Type) where
  | added (answer : Bool)
  | info (info : Option (PeerInfo PeerId Multiaddr))
  | peers (peers : List PeerId)
  | count (count : ℕ)
  | answer (answer : Bool)
  | stats (stats : PeerStats)
  | done
  deriving DecidableEq

def PeerOp.program (maxPeers minPeers : ℕ) :
    PeerOp PeerId Multiaddr → PeerProgram PeerId Multiaddr (PeerAnswer PeerId Multiaddr)
  | .addPeer peer => do return .added (← PeerProgram.addPeer maxPeers peer)
  | .removePeer peer => do return .info (← PeerProgram.removePeer peer)
  | .getPeer peer => do return .info (← PeerProgram.getPeer peer)
  | .updatePeer update => do
      PeerProgram.updatePeer update
      return .done
  | .connectedPeers => do return .peers (← PeerProgram.connectedPeers)
  | .miningPoolPeers => do return .peers (← PeerProgram.miningPoolPeers)
  | .connectedCount => do return .count (← PeerProgram.connectedCount)
  | .needsMorePeers => do return .answer (← PeerProgram.needsMorePeers minPeers)
  | .hasTooManyPeers => do return .answer (← PeerProgram.hasTooManyPeers maxPeers)
  | .removeTimedOutPeers => do return .peers (← PeerProgram.removeTimedOutPeers)
  | .getStats => do return .stats (← PeerProgram.getStats)

/-- The calls into the map by any number of callers; nothing happens to it by itself. -/
def sharedPeers (PeerId Multiaddr : Type) [DecidableEq PeerId] (maxPeers minPeers : ℕ) :
    SharedObject (PeerManager PeerId Multiaddr) (PeerReadings PeerId Multiaddr) Empty
      (PeerOp PeerId Multiaddr) (PeerAnswer PeerId Multiaddr) (PeerAct PeerId Multiaddr)
      PeerAct.Answer where
  perform := fun action readings m => (action.perform readings m).map some id
  program := PeerOp.program maxPeers minPeers
  elapse := nofun

abbrev ConcurrentPeers (PeerId Multiaddr Caller : Type) : Type :=
  Concurrent (PeerManager PeerId Multiaddr) Caller (PeerOp PeerId Multiaddr)
    (PeerAnswer PeerId Multiaddr) (PeerAct PeerId Multiaddr) PeerAct.Answer

abbrev ConcurrentPeersCall (PeerId Multiaddr Caller : Type) : Type :=
  Call (ConcurrentPeers PeerId Multiaddr Caller)
    (ConcurrentEvent (PeerReadings PeerId Multiaddr) Empty Caller (PeerOp PeerId Multiaddr))
    (Progress (PeerAnswer PeerId Multiaddr))

/-- Before the first call, for a manager that has just been made. -/
def ConcurrentPeers.new {Caller : Type} (maxPeers minPeers : ℕ) (timeout : Duration) :
    ConcurrentPeers PeerId Multiaddr Caller :=
  .start (.new maxPeers minPeers timeout)

end Peer

end SilverNetwork
