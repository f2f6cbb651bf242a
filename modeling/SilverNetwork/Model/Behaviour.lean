import SilverNetwork.Model.Gossip

/-! The message identifier that the node's network behaviour configures for `gossipsub`. The
hash of the standard library's `DefaultHasher`, whose algorithm is unspecified, is a
parameter. -/

namespace SilverNetwork

def MessageId.ofString (value : String) : MessageId :=
  ⟨value.toList.flatMap String.utf8EncodeChar⟩

/-- The decimal digits of the hash of the message's content. -/
def messageIdFn (hash : Bytes → UInt64) (data : Bytes) : MessageId :=
  .ofString (toString (hash data).toNat)

end SilverNetwork
