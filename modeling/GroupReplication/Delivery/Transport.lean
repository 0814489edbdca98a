/-
Ordered links to a target: every frame that is sent is answered by one frame. Connecting opens
a new connection on the far side.
-/
import GroupReplication.Frame.Codec
import GroupReplication.Target.Session

namespace GroupReplication

/-- A link whose near and far end together have state `τ`. -/
structure Transport (τ : Type) where
  connect : Action τ Unit
  /-- Sends a frame and waits for the answer, both in bytes. -/
  send : Bytes → Action τ Bytes
  close : Action τ Unit

/-- A link inside one process, which can be cut and counts what passes. -/
structure Loopback where
  severed : Bool
  frames : Nat
  connections : Nat
  session : Option Session
  deriving Repr, DecidableEq

namespace Loopback

def new : Loopback := ⟨false, 0, 0, none⟩

end Loopback

/-- A loopback and the group that it leads to. -/
structure LoopbackEnds (ρ : Type) where
  link : Loopback
  group : TargetGroup ρ

namespace LoopbackEnds

variable {ρ : Type}

def closeSession (e : LoopbackEnds ρ) : LoopbackEnds ρ :=
  match e.link.session with
  | some s => ⟨{ e.link with session := none }, (s.close e.group).2⟩
  | none => e

def connect : Action (LoopbackEnds ρ) Unit := do
  modify closeSession
  let e ← get
  if e.link.severed then
    throw (.transport .severed)
  set ({ e with link := { e.link with
    session := some .new
    connections := e.link.connections + 1 } } : LoopbackEnds ρ)

/-- A cut link closes the connection when something is sent. -/
def send (A : Applier ρ) (bs : Bytes) : Action (LoopbackEnds ρ) Bytes := do
  let e ← get
  if e.link.severed then
    modify closeSession
    throw (.transport .severed)
  match e.link.session with
  | none => throw (.transport .notConnected)
  | some s =>
    let f ← Action.decided ((Frame.decode bs).mapError .protocol)
    let (reply, s, group) := s.receive A f e.group
    set ({ link := { e.link with session := some s, frames := e.link.frames + 1 }, group } :
      LoopbackEnds ρ)
    Action.decided (reply.encode.mapError .protocol)

end LoopbackEnds

namespace Transport

def loopback {ρ : Type} (A : Applier ρ) : Transport (LoopbackEnds ρ) where
  connect := LoopbackEnds.connect
  send := LoopbackEnds.send A
  close := modify LoopbackEnds.closeSession

end Transport

/-- What was done on a link. -/
inductive LinkEvent where
  | connect
  | sent (bytes : Bytes)
  | close
  deriving Repr, DecidableEq

/-- A link that answers from a script: how each connect ends, what each frame is answered, and
how a close ends. -/
structure Script where
  connects : List (Except Error Unit)
  replies : List (Except Error Bytes)
  close : Except Error Unit
  events : List LinkEvent

namespace Script

def record (event : LinkEvent) : Action Script Unit :=
  modify fun s => { s with events := s.events ++ [event] }

/-- A connect that the script says nothing about succeeds. -/
def connect : Action Script Unit := do
  record .connect
  let s ← get
  set { s with connects := s.connects.tail }
  Action.decided (s.connects.headD (.ok ()))

def send (bs : Bytes) : Action Script Bytes := do
  record (.sent bs)
  let s ← get
  set { s with replies := s.replies.tail }
  Action.decided (s.replies.headD
    (.error (.transport (.reported "reply script exhausted"))))

end Script

namespace Transport

def scripted : Transport Script where
  connect := Script.connect
  send := Script.send
  close := do
    Script.record .close
    Action.decided (← get).close

end Transport

end GroupReplication
