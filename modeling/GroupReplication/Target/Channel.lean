/-
The target end of a channel. Packets come in the order of their keys; one that comes again is
replayed, and one that comes too early is refused. Packets of a bulk are held back until the
bulk ends, and a key is confirmed only when nothing held back lies before it.

Keys are words of 64 bits. A channel that has received the last of them has no next key to
compare a packet with: the sum overflows, and nothing is consumed any more.
-/
import GroupReplication.Action
import GroupReplication.Confirmation
import GroupReplication.Handshake
import GroupReplication.Target.Settlement

namespace GroupReplication

structure TargetStats where
  received : Nat
  applied : Nat
  replayed : Nat
  ignored : Nat
  reported : Nat
  overwritten : Nat
  handshakes : Nat
  deriving Repr, DecidableEq

namespace TargetStats

def zero : TargetStats := ⟨0, 0, 0, 0, 0, 0, 0⟩

def count (o : Outcome) (s : TargetStats) : TargetStats :=
  match o with
  | .applied => { s with applied := s.applied + 1 }
  | .overwritten _ => { s with overwritten := s.overwritten + 1 }
  | .ignored .. => { s with ignored := s.ignored + 1 }
  | .reported .. => { s with reported := s.reported + 1 }
  | .failed _ | .overwriteFailed .. => s

end TargetStats

/-- Packets of one bulk that wait for its end. -/
structure Bulk where
  id : UInt64
  packets : List Packet
  deriving Repr, DecidableEq

namespace Bulk

def firstKey (b : Bulk) : Option Nat := b.packets.head?.map (·.key)

end Bulk

/-- The bulk of a packet: only a packet of a single operation can belong to one. -/
def Packet.bulk (p : Packet) : Option UInt64 :=
  match p.payload with
  | .entry op => op.bulk
  | _ => none

/-- Operations of transactions that are prepared and neither committed nor aborted. -/
abbrev Staged := Table UInt64 (List EntryOperation)

/-- What a payload does at once, and what it leaves staged. A commit without operations of its
own does what was prepared for it. -/
def Payload.effects (p : Payload) (staged : Staged) : List Effect × Staged :=
  match p with
  | .entry op => ([.entry op], staged)
  | .batch ops => (ops.map .entry, staged)
  | .transaction .prepare txn => ([], staged.insert txn.id txn.operations)
  | .transaction .commit txn =>
    let ops := if txn.operations.isEmpty then (staged.get? txn.id).getD [] else txn.operations
    (ops.map .entry, staged.erase txn.id)
  | .transaction .abort txn => ([], staged.erase txn.id)
  | .typeIndex index => ([.addIndex index], staged)
  | .typeIntroduce descriptor => ([.introduce descriptor], staged)

structure TargetChannel where
  group : String
  source : String
  settings : ConflictSettings
  state : ChannelState
  confirmation : Confirmation
  lastReceived : Nat
  /-- The next handshake asks for everything from the start. -/
  firstHandshakePending : Bool
  staged : Staged
  bulk : Option Bulk
  consumerState : Option Bytes
  producerState : Option Bytes
  stats : TargetStats
  deriving Repr, DecidableEq

namespace TargetChannel

def fresh (group source : String) (settings : ConflictSettings) : TargetChannel where
  group := group
  source := source
  settings := settings
  state := .disconnected
  confirmation := .upTo 0
  lastReceived := 0
  firstHandshakePending := true
  staged := []
  bulk := none
  consumerState := none
  producerState := none
  stats := .zero

def lastConfirmed (c : TargetChannel) : Nat := c.confirmation.lastConfirmed

/-- The connection is lost: what was held back will be sent again. -/
def disconnected (c : TargetChannel) : TargetChannel :=
  { c with
    state := match c.state with
      | .active | .handshaking => .disconnected
      | s => s
    bulk := none
    lastReceived := c.lastConfirmed }

/-- Forgets where to resume. -/
def requiringResync (c : TargetChannel) : TargetChannel :=
  { c with firstHandshakePending := true }

def request (c : TargetChannel) : HandshakeRequest :=
  if c.firstHandshakePending then ⟨true, 0, c.consumerState⟩
  else ⟨false, c.lastConfirmed, c.consumerState⟩

/-- The key up to which nothing is held back. -/
def confirmable (c : TargetChannel) : Nat :=
  match c.bulk.bind (·.firstKey) with
  | some first => first - 1
  | none => c.lastReceived

/-- The channel with `p` added to the bulk it belongs to. -/
def holdBack (id : UInt64) (p : Packet) (c : TargetChannel) : TargetChannel :=
  { c with bulk := some ⟨id, (c.bulk.elim [] (·.packets)) ++ [p]⟩ }

end TargetChannel

/-- A target channel at work on the copy of its group. -/
structure Receiver (ρ : Type) where
  channel : TargetChannel
  replica : ρ
  journal : List JournalEntry

namespace Receiver

variable {ρ : Type}

def onChannel (f : TargetChannel → TargetChannel) : Action (Receiver ρ) Unit :=
  modify fun r => { r with channel := f r.channel }

def moveTo (next : ChannelState) : Action (Receiver ρ) Unit := do
  let state ← Action.decided ((← get).channel.state.transition next)
  onChannel fun c => { c with state }

/-- Starts a handshake. -/
def requestHandshake : Action (Receiver ρ) HandshakeRequest := do
  if (← get).channel.state = .active then
    onChannel (·.disconnected)
  moveTo .handshaking
  return (← get).channel.request

/-- Carries out one effect of the packet with this key. -/
def carryOut (A : Applier ρ) (key : Nat) (transient : Bool) (effect : Effect) :
    Action (Receiver ρ) Unit := do
  let r ← get
  let (outcome, replica) := effect.settle A r.channel.settings transient r.replica
  set ({ r with
    replica
    channel.stats := r.channel.stats.count outcome
    journal :=
      r.journal ++ [⟨r.channel.group, r.channel.source, key, effect, outcome⟩] } : Receiver ρ)
  if let some text := outcome.failure? then
    throw (.apply text)

/-- Carries out effects one after the other, and stops at the first that fails. -/
def carryOutAll (A : Applier ρ) (key : Nat) (transient : Bool) :
    List Effect → Action (Receiver ρ) Unit
  | [] => pure ()
  | effect :: rest => do
    carryOut A key transient effect
    carryOutAll A key transient rest

def applyPacket (A : Applier ρ) (p : Packet) : Action (Receiver ρ) Unit := do
  let (effects, staged) := p.payload.effects (← get).channel.staged
  onChannel fun c => { c with staged }
  carryOutAll A p.key p.transient effects

def applyPackets (A : Applier ρ) : List Packet → Action (Receiver ρ) Unit
  | [] => pure ()
  | p :: ps => do
    applyPacket A p
    applyPackets A ps

/-- Ends the open bulk: applies what it held back, and confirms that. -/
def flushBulk (A : Applier ρ) : Action (Receiver ρ) Unit := do
  if let some bulk := (← get).channel.bulk then
    onChannel fun c => { c with bulk := none }
    applyPackets A bulk.packets
    if let some last := bulk.packets.getLast? then
      onChannel fun c => { c with confirmation := c.confirmation.advance last.key }

/-- Consumes a packet that was received before: one that is held back, or a phase of a
transaction that is confirmed, is passed over. -/
def replay (A : Applier ρ) (p : Packet) : Action (Receiver ρ) Unit := do
  onChannel fun c => { c with stats.replayed := c.stats.replayed + 1 }
  let c := (← get).channel
  let heldBack := (c.bulk.bind (·.firstKey)).any (· ≤ p.key)
  let confirmedPhase := match p.payload with
    | .transaction .. => decide (p.key ≤ c.lastConfirmed)
    | _ => false
  if !heldBack && !confirmedPhase then
    applyPacket A p

/-- Consumes the packet that comes next. -/
def receiveNext (A : Applier ρ) (p : Packet) : Action (Receiver ρ) Unit := do
  onChannel fun c => { c with stats.received := c.stats.received + 1 }
  match p.bulk with
  | some id =>
    if (← get).channel.bulk.any (·.id ≠ id) then
      flushBulk A
    onChannel (·.holdBack id p)
  | none =>
    flushBulk A
    applyPacket A p
  onChannel fun c => { c with lastReceived := p.key }
  onChannel fun c => { c with confirmation := c.confirmation.advance c.confirmable }

/-- Consumes a packet and answers the key to acknowledge. -/
def consume (A : Applier ρ) (p : Packet) : Action (Receiver ρ) Nat := do
  let c := (← get).channel
  if c.state ≠ .active then
    throw (.channel (.packetOutOfPlace c.group p.key c.state))
  let expected := c.lastReceived + 1
  if expected < p.key then
    throw (.channel (.gap c.group expected p.key))
  -- the sum is one of words: where it does not fit, the call ends with everything as it was
  if 2 ^ 64 ≤ expected then
    throw (.channel .keyOverflow)
  if p.key < expected then
    replay A p
  else
    receiveNext A p
  return (← get).channel.lastConfirmed

/-- Consumes packets one after the other, up to the first that fails. -/
def consumeBatch (A : Applier ρ) : List Packet → Action (Receiver ρ) Nat
  | [] => do return (← get).channel.lastConfirmed
  | p :: ps => do
    discard <| consume A p
    consumeBatch A ps

/-- Drops the copy if the source says so; otherwise the source has to resume right behind the
last confirmed key, and behind the last key of all it cannot. -/
def alignWith (A : Applier ρ) (response : HandshakeResponse) : Action (Receiver ρ) Unit := do
  let r ← get
  let start := response.startKey
  if start = 0 then
    throw (.handshake .startKeyZero)
  if response.discardLocalState then
    match A.clearGroup r.channel.group r.replica with
    | (.error e, replica) =>
      set ({ r with replica } : Receiver ρ)
      throw (.apply e.message)
    | (.ok (), replica) =>
      set ({ r with
        replica
        channel := { r.channel with staged := [], confirmation := .upTo (start - 1) } } :
          Receiver ρ)
  else if start ≠ r.channel.lastConfirmed + 1 then
    throw (.handshake (.resumeElsewhere r.channel.group start r.channel.lastConfirmed))

/-- Takes the source's answer and becomes active; an answer that does not fit ends the
handshake. -/
def completeHandshake (A : Applier ρ) (response : HandshakeResponse) :
    Action (Receiver ρ) Unit := do
  let c := (← get).channel
  if c.state ≠ .handshaking then
    throw (.channel (.replyOutOfPlace c.group c.state))
  match ← Action.attempt (alignWith A response) with
  | .error e =>
    moveTo .disconnected
    throw e
  | .ok () =>
    onChannel fun c => { c with
      bulk := none
      lastReceived := response.startKey - 1
      producerState := response.state
      firstHandshakePending := false
      stats.handshakes := c.stats.handshakes + 1 }
    moveTo .active

end Receiver

end GroupReplication
