/-
The source end of a channel: what it has confirmed, where its next packets come from, and what
is on its way.
-/
import GroupReplication.Backlog.Accumulator
import GroupReplication.Confirmation

namespace GroupReplication

/-- A channel reads the log from a key on until it has caught up; then new packets reach it
through its accumulator. -/
inductive Cursor where
  | catchingUp (nextKey : Nat)
  | live
  deriving Repr, DecidableEq

structure SourceChannel where
  confirmation : Confirmation
  state : ChannelState
  cursor : Cursor
  accumulator : Accumulator
  /-- Keys and weights that were sent and are not yet confirmed. -/
  inFlight : List (Nat × Nat)
  lastSent : Nat
  /-- Packets were discarded that the channel still had to get. -/
  resyncRequired : Bool
  /-- What the target handed over at its last handshake. -/
  consumerState : Option Bytes
  /-- What the target is handed at its next handshake. -/
  producerState : Option Bytes
  handshakes : Nat
  deriving Repr, DecidableEq

namespace SourceChannel

def fresh (accumulator : Accumulator) : SourceChannel where
  confirmation := .upTo 0
  state := .disconnected
  cursor := .live
  accumulator := accumulator
  inFlight := []
  lastSent := 0
  resyncRequired := false
  consumerState := none
  producerState := none
  handshakes := 0

def lastConfirmed (c : SourceChannel) : Nat := c.confirmation.lastConfirmed

/-- Starts delivery over at `start`. -/
def restart (start : Nat) (c : SourceChannel) : SourceChannel :=
  { c with
    cursor := .catchingUp start
    accumulator := c.accumulator.clear
    inFlight := []
    lastSent := start - 1
    resyncRequired := false }

/-- Books a batch as sent. -/
def recordSent (ps : List Packet) (c : SourceChannel) : SourceChannel :=
  { c with
    inFlight := c.inFlight ++ ps.map fun p => (p.key, p.weight)
    lastSent := ps.foldl (fun last p => max last p.key) c.lastSent }

/-- Confirms everything up to `key`, and takes the confirmed packets off the way. -/
def confirm (key : Nat) (c : SourceChannel) : SourceChannel :=
  let confirmed := c.inFlight.takeWhile (·.1 ≤ key)
  { c with
    inFlight := c.inFlight.drop confirmed.length
    confirmation :=
      (c.confirmation.advance key).subWeight ((confirmed.map (·.2)).foldr (· + ·) 0) }

/-- Drops what waits or is on its way up to `key`, and reads on behind it. -/
def pruneDiscarded (key : Nat) (c : SourceChannel) : SourceChannel :=
  { c with
    accumulator := c.accumulator.pruneUpTo key
    inFlight := c.inFlight.filter (key < ·.1)
    cursor := match c.cursor with
      | .catchingUp next => .catchingUp (if next ≤ key then key + 1 else next)
      | .live => .live }

/-- The channel after `removed` was discarded from the log: charged for the packets that it had
not confirmed, and in need of a resync if there were any. -/
def afterDiscard (removed : List Packet) (c : SourceChannel) : SourceChannel :=
  let lost := removed.filter (c.lastConfirmed < ·.key)
  match lost, removed.getLast? with
  | _ :: _, some last =>
    let c := { c with
      confirmation := c.confirmation.discard lost.length (Packet.totalWeight lost) }
    { c.pruneDiscarded last.key with resyncRequired := true }
  | _, _ => c

/-- The channel after a packet was added to the log. -/
def afterAdd (now : Nat) (p : Packet) (c : SourceChannel) : SourceChannel :=
  let c := { c with confirmation := c.confirmation.addWeight p.weight }
  if c.state = .active ∧ c.cursor = .live then
    { c with accumulator := c.accumulator.push now p }
  else c

/-- The transport is lost; the channel waits for a resume. -/
def disconnected (c : SourceChannel) : SourceChannel :=
  match c.state with
  | .active | .handshaking => { c with state := .disconnected, accumulator := c.accumulator.clear }
  | .disconnected | .closing => c

end SourceChannel

end GroupReplication
