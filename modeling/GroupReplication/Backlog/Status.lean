/-
What a backlog tells about its channels.
-/
import GroupReplication.Backlog.Basic

namespace GroupReplication

structure ChannelStatus where
  name : String
  state : ChannelState
  cursor : Cursor
  lastConfirmed : Nat
  lastSent : Nat
  inFlight : Nat
  accumulated : Nat
  weight : Nat
  discarded : Nat
  calculatedWeight : Nat
  resyncRequired : Bool
  errorKey : Option Nat
  handshakes : Nat
  deriving Repr, DecidableEq

structure BacklogHealth where
  group : String
  size : Nat
  weight : Nat
  channels : Nat
  pendingErrors : List (String × PendingError)
  resyncRequired : List String
  deriving Repr, DecidableEq

namespace BacklogHealth

def isHealthy (h : BacklogHealth) : Bool :=
  h.pendingErrors.isEmpty && h.resyncRequired.isEmpty

end BacklogHealth

namespace Backlog

def statusOf (b : Backlog) (name : String) (c : SourceChannel) : ChannelStatus where
  name := name
  state := c.state
  cursor := c.cursor
  lastConfirmed := c.lastConfirmed
  lastSent := c.lastSent
  inFlight := c.inFlight.length
  accumulated := c.accumulator.size
  weight := c.confirmation.weight
  discarded := c.confirmation.discarded
  calculatedWeight := c.confirmation.calculated b.settings.discardedPacketWeight
  resyncRequired := c.resyncRequired
  errorKey := c.confirmation.pendingError.map (·.key)
  handshakes := c.handshakes

def status? (b : Backlog) (target : String) : Option ChannelStatus :=
  (b.channel? target).map (b.statusOf target)

/-- The status of every channel, by name. -/
def statuses (b : Backlog) : List ChannelStatus :=
  b.channels.sorted.map fun (name, c) => b.statusOf name c

/-- The channel with the highest calculated weight, the last by name of several. -/
def heaviest? (b : Backlog) : Option ChannelStatus :=
  b.statuses.foldl (fun best s =>
    match best with
    | some h => if s.calculatedWeight < h.calculatedWeight then best else some s
    | none => some s) none

def health (b : Backlog) : BacklogHealth where
  group := b.group
  size := b.size
  weight := b.weight
  channels := b.channels.length
  pendingErrors := b.channels.sorted.filterMap fun (name, c) =>
    c.confirmation.pendingError.map (name, ·)
  resyncRequired := (b.channels.sorted.filter (·.2.resyncRequired)).map (·.1)

end Backlog

end GroupReplication
