/-
The backlog of a group on its source: it numbers packets and keeps them in a log, feeds every
channel from the log or as packets come, tracks what each channel has confirmed, and removes
what all have.
-/
import GroupReplication.Backlog.Channel
import GroupReplication.Handshake
import GroupReplication.PacketLog
import GroupReplication.Settings

namespace GroupReplication

structure Backlog where
  group : String
  settings : BacklogSettings
  membership : Membership
  nextKey : Nat
  log : PacketLog
  channels : Table String SourceChannel
  /-- The time that the backlog goes by. -/
  now : Nat
  deriving Repr, DecidableEq

namespace Backlog

/-- A backlog over a log. Keys go on behind all that the log ever held. -/
def ofLog (membership : Membership) (settings : BacklogSettings) (log : PacketLog) : Backlog where
  group := membership.name
  settings := settings
  membership := membership
  nextKey := log.nextKey
  log := log
  channels := []
  now := 0

def size (b : Backlog) : Nat := b.log.size.packets

def weight (b : Backlog) : Nat := b.log.size.weight

def channel? (b : Backlog) (target : String) : Option SourceChannel := b.channels.get? target

def retained (b : Backlog) : RetainedRange := ⟨b.log.firstKey, b.nextKey⟩

/-- The key that every channel has confirmed. -/
def frontier? (b : Backlog) : Option Nat :=
  Confirmation.frontier? (b.channels.values.map (·.confirmation))

def onLog {α : Type} (act : Action PacketLog α) : Action Backlog α :=
  act.within (·.log) fun log b => { b with log }

def mapChannels (f : SourceChannel → SourceChannel) : Action Backlog Unit :=
  modify fun b => { b with channels := b.channels.mapValues f }

def setChannel (target : String) (c : SourceChannel) : Action Backlog Unit :=
  modify fun b => { b with channels := b.channels.insert target c }

/-- The channel of a target, which has to be registered. -/
def channelOf (target : String) : Action Backlog SourceChannel := do
  let b ← get
  match b.channel? target with
  | some c => return c
  | none => throw (.channel (.notRegistered target b.group))

/-- How many packets from the front weigh at least `needed` together, or all of them. -/
def countToFree : (needed : Nat) → List Packet → Nat
  | _, [] => 0
  | needed, p :: ps => if needed ≤ p.weight then 1 else 1 + countToFree (needed - p.weight) ps

/-- Drops packets from the head until `needed` weight is free, and charges the channels that
had not confirmed them. -/
def discardOldest (needed : Nat) : Action Backlog Unit := do
  let reading ← Action.decided ((← get).log.readFrom none)
  let count := countToFree needed reading.packets
  if Packet.totalWeight reading.packets < needed then
    discard <| Action.decided reading.all
  let removed ← onLog (PacketLog.removeFirst count none)
  mapChannels (·.afterDiscard removed)

/-- Makes room for a packet of this weight, or fails. -/
def makeRoom (weight : Nat) : Action Backlog Unit := do
  let b ← get
  let threshold := b.settings.maxWeight
  let projected := b.log.weight + weight
  if threshold < projected then
    match b.settings.fullPolicy with
    | .reject => throw (.storageFull b.group projected threshold)
    | .discardOldest =>
      if threshold < weight then
        throw (.storageFull b.group weight threshold)
      discardOldest (projected - threshold)

/-- Logs a payload and answers its key, or does nothing if nobody is registered. -/
def addPayload (payload : Payload) (transient fromGateway : Bool) :
    Action Backlog (Option Nat) := do
  let b ← get
  if b.channels.isEmpty then
    return none
  let p : Packet :=
    { key := b.nextKey, weight := payload.defaultWeight, transient, fromGateway, payload }
  makeRoom p.weight
  onLog (PacketLog.append [p])
  modify fun b => { b with nextKey := p.key + 1 }
  mapChannels (·.afterAdd b.now p)
  return some p.key

def add (op : EntryOperation) (transient : Bool) : Action Backlog (Option Nat) :=
  addPayload (.entry op) transient false

def addTransaction (phase : TxnPhase) (txn : Transaction) : Action Backlog (Option Nat) :=
  addPayload (.transaction phase txn) false false

/-- The channel as a handshake registers it that starts at `start`, where the packets from there on
have this weight. A resume keeps the count of discarded packets. -/
def registered (request : HandshakeRequest) (start weight : Nat) (c : SourceChannel) :
    SourceChannel :=
  let discarded := if request.first then 0 else c.confirmation.discarded
  let confirmation := (Confirmation.upTo (start - 1)).setWeight weight
  { c.restart start with
    confirmation := confirmation.discard discarded 0
    consumerState := request.state
    handshakes := c.handshakes + 1 }

/-- The channel after the handshake. -/
def welcomed (request : HandshakeRequest) (start weight : Nat) (c : SourceChannel) :
    SourceChannel :=
  { registered request start weight c with state := .active }

/-- Takes the channel of a target to another state, if the step is allowed. -/
def moveChannel (target : String) (next : ChannelState) (c : SourceChannel) :
    Action Backlog SourceChannel := do
  let state ← Action.decided (c.state.transition next)
  setChannel target { c with state }
  return { c with state }

/-- A channel that is still active gives up its connection. -/
def hangUp (target : String) (c : SourceChannel) : Action Backlog SourceChannel :=
  if c.state = .active then moveChannel target .disconnected c else return c

/-- Takes the channel of a target through a handshake that starts at `start`. -/
def reopen (target : String) (request : HandshakeRequest) (start weight : Nat) (c : SourceChannel) :
    Action Backlog Unit := do
  setChannel target c
  let c ← moveChannel target .handshaking (← hangUp target c)
  let c := registered request start weight c
  setChannel target c
  discard <| moveChannel target .active c

/-- Decides where delivery to a target starts, and registers its channel. A handshake that
fails changes nothing. -/
def handshake (target : String) (request : HandshakeRequest) :
    Action Backlog HandshakeResponse := do
  let b ← get
  if !b.membership.allowsTarget target then
    throw (.unknownMember (.target target b.group))
  let response ← Action.decided (negotiate request b.retained)
  let reading ← Action.decided (b.log.readFrom (some response.startKey))
  let outstanding ← Action.decided reading.all
  let c := (b.channel? target).getD
    (.fresh (.empty b.settings.maxBatchSize b.settings.maxBatchAge))
  reopen target request response.startKey (Packet.totalWeight outstanding) c
  return { response with state := c.producerState }

/-- The next batch of a channel that still reads the log. It is live once it has read the last
packet, or found none. -/
def catchUp (target : String) (c : SourceChannel) (nextKey : Nat) :
    Action Backlog (Option (List Packet)) := do
  let b ← get
  if nextKey < b.log.earliest then
    setChannel target { c with resyncRequired := true }
    throw (.resumeKeyCompacted nextKey b.log.earliest)
  let reading ← Action.decided (b.log.readFrom (some nextKey))
  let ps ← Action.decided (reading.first b.settings.maxBatchSize)
  let cursor := match ps.getLast?, b.log.lastKey with
    | some p, some tail => if p.key < tail then Cursor.catchingUp (p.key + 1) else .live
    | _, _ => .live
  setChannel target ({ c with cursor }.recordSent ps)
  return if ps.isEmpty then none else some ps

/-- The next batch of a channel, if one is due, or, when forced, if any packet waits. -/
def poll (target : String) (force : Bool) : Action Backlog (Option (List Packet)) := do
  let c ← channelOf target
  let b ← get
  if c.state ≠ .active then
    throw (.channel (.notActive target b.group c.state))
  if c.resyncRequired then
    throw (.resumeKeyCompacted (c.lastConfirmed + 1) b.log.earliest)
  match c.cursor with
  | .catchingUp nextKey => catchUp target c nextKey
  | .live =>
    match c.accumulator.poll b.now force with
    | none => return none
    | some (ps, accumulator) =>
      setChannel target ({ c with accumulator }.recordSent ps)
      return some ps

def nextBatch (target : String) : Action Backlog (Option (List Packet)) := poll target false

def flush (target : String) : Action Backlog (Option (List Packet)) := poll target true

/-- Confirms everything up to `key` for a target, and says whether that was new. -/
def confirm (target : String) (key : Nat) : Action Backlog Bool := do
  let c ← channelOf target
  if c.lastSent < key then
    throw (.channel (.neverSent target key c.lastSent))
  if !c.confirmation.isAhead key then
    return false
  setChannel target (c.confirm key)
  return true

/-- Pins an error to a key, and says whether the key was still open. -/
def recordError (target : String) (key : Nat) (error : Error) : Action Backlog Bool := do
  let c ← channelOf target
  setChannel target { c with confirmation := c.confirmation.pin key error }
  return c.confirmation.isAhead key

def disconnect (target : String) : Action Backlog Unit := do
  let c ← channelOf target
  setChannel target c.disconnected

/-- Forgets a channel. With the last one the packets go as well. -/
def detach (target : String) : Action Backlog Unit := do
  discard <| channelOf target
  modify fun b => { b with channels := b.channels.erase target }
  let b ← get
  if b.channels.isEmpty then
    if let some last := b.log.lastKey then
      discard <| onLog (PacketLog.deleteOldest last)

def setProducerState (target : String) (state : Bytes) : Action Backlog Unit := do
  let c ← channelOf target
  setChannel target { c with producerState := some state }

def consumerState? (b : Backlog) (target : String) : Option Bytes :=
  (b.channel? target).bind (·.consumerState)

/-- The key up to which a compaction of at most `limit` packets may go, when all channels have
confirmed `frontier` and the log starts at `first`. -/
def compactionEnd (first frontier limit : Nat) : Nat :=
  min frontier (saturate (first + (max limit 1 - 1)))

/-- Removes up to `limit` packets that every channel has confirmed. While no channel is
registered nothing is removed. -/
def compact (limit : Nat) : Action Backlog Compaction := do
  let b ← get
  let nothing : Compaction := ⟨none, 0, 0, b.log.weight⟩
  match b.log.firstKey, b.frontier? with
  | some first, some frontier =>
    if frontier < first then
      return nothing
    onLog (PacketLog.compact first (compactionEnd first frontier limit))
  | _, _ => return nothing

def validate : Action Backlog Unit := onLog PacketLog.validate

def close : Action Backlog Unit := onLog PacketLog.close

end Backlog

end GroupReplication
