import SilverNetwork.Model.Platform

/-! The error type of the network layer, how each of its errors is recovered from, and the
context an error comes with. -/

namespace SilverNetwork

inductive NetworkError where
  | connectionFailed (message : String)
  | connectionTimeout (message : String)
  | connectionRefused (message : String)
  | connectionReset (message : String)
  | handshakeFailed (message : String)
  | discovery (message : String)
  | discoveryError (message : String)
  | serialization (message : String)
  | serializationError (message : String)
  | deserialization (message : String)
  | deserializationError (message : String)
  | messageParsingFailed (message : String)
  | malformedMessage (message : String)
  | rateLimitExceeded (peer : String)
  | invalidPeer (message : String)
  | peerNotFound (message : String)
  | peerDisconnected (message : String)
  | peerUnhealthy (message : String)
  | messageTooLarge (size maximum : Nat)
  | invalidMessage (message : String)
  | invalidMessageFormat (message : String)
  | operationTimeout (message : String)
  | ioError (message : String)
  | configurationError (message : String)
  | invalidConfiguration (message : String)
  | transportError (message : String)
  | networkPartition (message : String)
  | resourceExhaustion (message : String)
  | criticalError (message : String)
  | shutdownInProgress (message : String)
  | other (message : String)
  deriving DecidableEq, Repr

inductive RecoveryStrategy where
  | exponentialBackoff
  | throttle
  | reconnect
  | retry
  | waitAndRetry
  | alert
  | failStartup
  | log
  deriving DecidableEq, Repr

namespace NetworkError

/-- The text of an error, from its `error` attribute. -/
def display : NetworkError → String
  | .connectionFailed message => "Connection failed: " ++ message
  | .connectionTimeout message => "Connection timeout: " ++ message
  | .connectionRefused message => "Connection refused: " ++ message
  | .connectionReset message => "Connection reset: " ++ message
  | .handshakeFailed message => "Handshake failed: " ++ message
  | .discovery message => "Peer discovery error: " ++ message
  | .discoveryError message => "Peer discovery error: " ++ message
  | .serialization message => "Serialization error: " ++ message
  | .serializationError message => "Serialization error: " ++ message
  | .deserialization message => "Deserialization error: " ++ message
  | .deserializationError message => "Deserialization error: " ++ message
  | .messageParsingFailed message => "Message parsing failed: " ++ message
  | .malformedMessage message => "Malformed message: " ++ message
  | .rateLimitExceeded peer => "Rate limit exceeded for peer " ++ peer
  | .invalidPeer message => "Invalid peer: " ++ message
  | .peerNotFound message => "Peer not found: " ++ message
  | .peerDisconnected message => "Peer disconnected: " ++ message
  | .peerUnhealthy message => "Peer unhealthy: " ++ message
  | .messageTooLarge size maximum => s!"Message too large: {size} bytes (max: {maximum})"
  | .invalidMessage message => "Invalid message: " ++ message
  | .invalidMessageFormat message => "Invalid message format: " ++ message
  | .operationTimeout message => "Operation timed out: " ++ message
  | .ioError message => "IO error: " ++ message
  | .configurationError message => "Configuration error: " ++ message
  | .invalidConfiguration message => "Invalid configuration: " ++ message
  | .transportError message => "Transport error: " ++ message
  | .networkPartition message => "Network partition: " ++ message
  | .resourceExhaustion message => "Resource exhaustion: " ++ message
  | .criticalError message => "Critical error: " ++ message
  | .shutdownInProgress message => "Shutdown in progress: " ++ message
  | .other message => "Network error: " ++ message

def isRecoverable : NetworkError → Bool
  | .connectionTimeout _ | .connectionReset _ | .operationTimeout _ | .rateLimitExceeded _
  | .peerDisconnected _ | .networkPartition _ => true
  | _ => false

def isCritical : NetworkError → Bool
  | .criticalError _ | .invalidConfiguration _ | .resourceExhaustion _ => true
  | _ => false

def recoveryStrategy : NetworkError → RecoveryStrategy
  | .connectionTimeout _ | .connectionReset _ => .exponentialBackoff
  | .rateLimitExceeded _ => .throttle
  | .peerDisconnected _ => .reconnect
  | .operationTimeout _ => .retry
  | .networkPartition _ => .waitAndRetry
  | .criticalError _ => .alert
  | .invalidConfiguration _ => .failStartup
  | _ => .log

end NetworkError

structure ErrorContext where
  operation : String
  peerId : Option String
  context : String
  timestamp : SystemTime
  recoverySuggestion : Option String
  deriving DecidableEq, Repr

namespace ErrorContext

def new (operation : String) (now : SystemTime) : ErrorContext where
  operation := operation
  peerId := none
  context := ""
  timestamp := now
  recoverySuggestion := none

def withPeer (peer : String) (c : ErrorContext) : ErrorContext := { c with peerId := some peer }

end ErrorContext

end SilverNetwork
