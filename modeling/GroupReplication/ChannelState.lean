/-
The life of a channel: no connection, negotiating where to resume, delivering, being detached.
-/
namespace GroupReplication

inductive ChannelState where
  | disconnected
  | handshaking
  | active
  | closing
  deriving Repr, DecidableEq

namespace ChannelState

def name : ChannelState → String
  | .disconnected => "DISCONNECTED"
  | .handshaking => "HANDSHAKING"
  | .active => "ACTIVE"
  | .closing => "CLOSING"

/-- Whether a channel may go from one state straight to another. -/
def allows : ChannelState → ChannelState → Bool
  | .disconnected, .handshaking => true
  | .handshaking, .active => true
  | .handshaking, .disconnected => true
  | .active, .closing => true
  | .active, .disconnected => true
  | .closing, .disconnected => true
  | _, _ => false

end ChannelState

end GroupReplication
