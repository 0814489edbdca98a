/-
One connection on the target side. Its first frame has to be a connect; from then on every
frame goes to the channel that the connect attached, also after the group has given the slot
to another channel.
-/
import GroupReplication.Rejection
import GroupReplication.Target.Group

namespace GroupReplication

structure Session where
  source : Option String
  channel : Option Nat
  deriving Repr, DecidableEq

namespace Session

variable {ρ : Type}

def new : Session := ⟨none, none⟩

/-- Attaches the source and asks for a handshake. -/
def connect (source group : String) (s : Session) (g : TargetGroup ρ) :
    Frame × Session × TargetGroup ρ :=
  if group ≠ g.name then (.reject .unknownGroup ("unknown group " ++ group), s, g)
  else if s.source.isSome then (.reject .protocol "session already connected", s, g)
  else match (TargetGroup.attach source).perform g with
    | (.error e, g) => (e.rejection, s, g)
    | (.ok channel, g) =>
      match (TargetGroup.onChannel channel Receiver.requestHandshake).perform g with
      | (.ok request, g) => (.handshake request, ⟨some source, some channel⟩, g)
      | (.error e, g) => (e.rejection, s, g.detach source)

/-- Lets the channel answer; a failure disconnects it. -/
def withChannel (act : Action (Receiver ρ) Frame) (s : Session) (g : TargetGroup ρ) :
    Frame × Session × TargetGroup ρ :=
  match s.channel with
  | none => (.reject .protocol "no Connect frame received", s, g)
  | some channel =>
    match (TargetGroup.onChannel channel act).perform g with
    | (.ok reply, g) => (reply, s, g)
    | (.error e, g) => (e.rejection, s, g.disconnect channel)

/-- The answer to one frame. -/
def receive (A : Applier ρ) (f : Frame) : Session → TargetGroup ρ →
    Frame × Session × TargetGroup ρ :=
  match f with
  | .connect source group => connect source group
  | .handshakeReply response => withChannel do
    Receiver.completeHandshake A response
    return .ack (← get).channel.lastConfirmed
  | .packet p => withChannel do
    return .ack (← Receiver.consume A p)
  | .batch ps => withChannel do
    return .ack (← Receiver.consumeBatch A ps)
  | .reject .resumeKeyCompacted _ => withChannel do
    Receiver.onChannel fun c => c.disconnected.requiringResync
    return .handshake (← Receiver.requestHandshake)
  | .reject .. => withChannel do
    Receiver.onChannel (·.disconnected)
    return .ack (← get).channel.lastConfirmed
  | .handshake _ | .ack _ => fun s g =>
    (.reject .protocol ("unexpected " ++ f.type.name ++ " frame on target"), s, g)

/-- The connection is gone. -/
def close (s : Session) (g : TargetGroup ρ) : Session × TargetGroup ρ :=
  (new, s.source.elim g g.detach)

end Session

end GroupReplication
