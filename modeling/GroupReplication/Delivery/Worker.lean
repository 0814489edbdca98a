/-
Delivery from the backlog of a group to one target. A worker connects, announces its source,
answers the target's handshake request from the backlog, and then ships batches and confirms
what is acknowledged. A resume key that is gone makes the target start over.
-/
import GroupReplication.Backlog.Basic
import GroupReplication.Delivery.Transport
import GroupReplication.Retry

namespace GroupReplication

structure DeliveryStats where
  batches : Nat
  packets : Nat
  lastAcked : Nat
  handshakes : Nat
  resyncs : Nat
  reconnectFailures : Nat
  deliveryFailures : Nat
  deriving Repr, DecidableEq

namespace DeliveryStats

def zero : DeliveryStats := ⟨0, 0, 0, 0, 0, 0, 0⟩

end DeliveryStats

structure Worker where
  source : String
  target : String
  settings : DeliverySettings
  established : Bool
  stats : DeliveryStats
  deriving Repr, DecidableEq

namespace Worker

def new (source target : String) (settings : DeliverySettings) : Worker :=
  ⟨source, target, settings, false, .zero⟩

end Worker

/-- A worker between its backlog and its link. -/
structure Delivery (τ : Type) where
  worker : Worker
  backlog : Backlog
  link : τ

namespace Delivery

variable {τ : Type}

def onBacklog {α : Type} (act : Action Backlog α) : Action (Delivery τ) α :=
  act.within (·.backlog) fun backlog d => { d with backlog }

def onLink {α : Type} (act : Action τ α) : Action (Delivery τ) α :=
  act.within (·.link) fun link d => { d with link }

def onStats (f : DeliveryStats → DeliveryStats) : Action (Delivery τ) Unit :=
  modify fun d => { d with worker.stats := f d.worker.stats }

def setEstablished (established : Bool) : Action (Delivery τ) Unit :=
  modify fun d => { d with worker.established := established }

/-- Sends a frame and answers the reply. -/
def exchange (T : Transport τ) (f : Frame) : Action (Delivery τ) Frame := do
  let bs ← Action.decided (f.encode.mapError .protocol)
  let reply ← onLink (T.send bs)
  Action.decided ((Frame.decode reply).mapError .protocol)

/-- The error for a reply that does not fit the exchange. -/
def unexpectedReply (reply : Frame) (exchange : Exchange) : Error :=
  match reply with
  | .reject .sourceAlreadyAttached text => .retryable (.refused exchange text)
  | .reject .unknownGroup text => .unknownMember (.reported text)
  | .reject .protocol text | .reject .resumeKeyCompacted text =>
    .channel (.rejected exchange text)
  | .reject .internal text => .transport (.targetFailed exchange text)
  | f => .channel (.unexpectedReply f.type exchange)

def expectHandshake (reply : Frame) : Except Error HandshakeRequest :=
  match reply with
  | .handshake request => .ok request
  | f => .error (unexpectedReply f .connect)

/-- Tells the target where delivery starts; from its acknowledgement on the channel stands. -/
def answerHandshake (T : Transport τ) (response : HandshakeResponse) :
    Action (Delivery τ) Unit := do
  match ← exchange T (.handshakeReply response) with
  | .ack _ =>
    setEstablished true
    onStats fun s => { s with handshakes := s.handshakes + 1 }
  | reply =>
    discard <| Action.attempt (onBacklog (Backlog.disconnect (← get).worker.target))
    throw (unexpectedReply reply .handshakeReply)

/-- Tells the target of an error, whatever it answers, and fails with it. -/
def refuse (T : Transport τ) (e : Error) : Action (Delivery τ) Unit := do
  discard <| Action.attempt (exchange T e.rejection)
  throw e

/-- Asks the target to start over after its resume key turned out to be gone. -/
def demandResync (T : Transport τ) (e : Error) : Action (Delivery τ) HandshakeRequest := do
  onStats fun s => { s with resyncs := s.resyncs + 1 }
  let request ← Action.decided (expectHandshake (← exchange T e.rejection))
  if !request.first then
    throw (.handshake .keptResuming)
  return request

def handshake (request : HandshakeRequest) : Action (Delivery τ) (Except Error HandshakeResponse) := do
  Action.attempt (onBacklog (Backlog.handshake (← get).worker.target request))

/-- Opens a connection and runs the handshake. -/
def establish (T : Transport τ) : Action (Delivery τ) Unit := do
  setEstablished false
  onLink T.connect
  let d ← get
  let request ← Action.decided
    (expectHandshake (← exchange T (.connect d.worker.source d.backlog.group)))
  match ← handshake request with
  | .ok response => answerHandshake T response
  | .error e =>
    match e, request.first with
    | .resumeKeyCompacted .., false =>
      match ← handshake (← demandResync T e) with
      | .ok response => answerHandshake T response
      | .error e => refuse T e
    | _, _ => refuse T e

/-- Ships a batch and answers the key that the target acknowledged. -/
def ship (T : Transport τ) (ps : List Packet) : Action (Delivery τ) Nat := do
  match ← exchange T (.batch ps) with
  | .ack key => return key
  | reply => throw (unexpectedReply reply .batch)

/-- Ships the next batch if one is due, or, when forced, if any packet waits; answers how many
packets were acknowledged. -/
def step (T : Transport τ) (force : Bool) : Action (Delivery τ) Nat := do
  let w := (← get).worker
  if !w.established then
    throw (.channel (.notEstablished w.source w.target))
  match ← onBacklog (Backlog.poll w.target force) with
  | none => return 0
  | some ps =>
    let first := (ps.head?.map (·.key)).getD 0
    match ← Action.attempt (ship T ps) with
    | .ok key =>
      discard <| onBacklog (Backlog.confirm w.target key)
      onStats fun s => { s with
        batches := s.batches + 1
        packets := s.packets + ps.length
        lastAcked := max s.lastAcked key }
      return ps.length
    | .error e =>
      onStats fun s => { s with deliveryFailures := s.deliveryFailures + 1 }
      discard <| onBacklog (Backlog.recordError w.target first e)
      throw (.transport (.batchFailed first w.target e.message))

/-- Forced steps until one ships nothing, and at most `fuel` of them. -/
def deliverUpTo (T : Transport τ) : (fuel : Nat) → Action (Delivery τ) Nat
  | 0 => return 0
  | fuel + 1 => do
    match ← step T true with
    | 0 => return 0
    | shipped => return shipped + (← deliverUpTo T fuel)

/-- Ships everything that waits. A step that ships anything takes a packet of the log or of
the accumulator, so their number bounds the steps. -/
def deliverPending (T : Transport τ) : Action (Delivery τ) Nat := do
  let d ← get
  let waiting := (d.backlog.channel? d.worker.target).elim 0 (·.accumulator.size)
  deliverUpTo T (d.backlog.size + waiting + 1)

/-- Drops the connection; the channel stays registered for a resume. -/
def disconnect (T : Transport τ) : Action (Delivery τ) Unit := do
  setEstablished false
  discard <| Action.attempt (onBacklog (Backlog.disconnect (← get).worker.target))
  discard <| Action.attempt (onLink T.close)

/-- Tries to establish the channel, and counts a failure. -/
def tryEstablish (T : Transport τ) : Action (Delivery τ) Unit := do
  match ← Action.attempt (establish T) with
  | .ok () => return ()
  | .error e =>
    onStats fun s => { s with reconnectFailures := s.reconnectFailures + 1 }
    throw e

/-- Establishes the channel again, with pauses between the attempts. -/
def reestablish (T : Transport τ) : Action (Delivery τ) Unit := fun d =>
  let (report, d) := Retry.run (.ofDelivery d.worker.settings) (fun _ => tryEstablish T) d
  (report.result, d)

/-- One turn of the delivery loop; says whether the loop goes on at once. Otherwise it pauses,
either because nothing is due or because a whole round of attempts failed. -/
def turn (T : Transport τ) : Action (Delivery τ) Bool := do
  if (← get).worker.established then
    match ← Action.attempt (step T false) with
    | .ok shipped => return shipped ≠ 0
    | .error _ =>
      disconnect T
      return true
  else
    match ← Action.attempt (reestablish T) with
    | .ok () => return true
    | .error _ => return false

/-- Turns until the loop pauses, and at most `turns` of them. -/
def runTurns (T : Transport τ) : (turns : Nat) → Action (Delivery τ) Unit
  | 0 => return ()
  | turns + 1 => do
    if ← turn T then
      runTurns T turns

/-- The delivery loop, shut down after `turns` turns or in its first pause, whichever comes
first. -/
def run (T : Transport τ) (turns : Nat) : Action (Delivery τ) Unit := do
  runTurns T turns
  disconnect T

end Delivery

end GroupReplication
