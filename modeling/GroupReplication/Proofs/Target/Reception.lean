/-
Connections to a group. Frames come over any of them in any order, each connection can be closed and
opened again, and receipts are kept of all that came.
-/
import GroupReplication.Target.Session

namespace GroupReplication

/-- Connections, by number, and the group that they lead to. -/
structure Connections (ρ : Type) where
  sessions : Nat → Session
  group : TargetGroup ρ

/-- What comes over a connection. A closed connection can be opened again. -/
inductive Signal where
  | frame (connection : Nat) (frame : Frame)
  | close (connection : Nat)

namespace Connections

variable {ρ : Type}

def start (g : TargetGroup ρ) : Connections ρ := ⟨fun _ => .new, g⟩

/-- Another state of one connection, and of the group. -/
def update (t : Connections ρ) (connection : Nat) (s : Session) (group : TargetGroup ρ) :
    Connections ρ :=
  ⟨fun other => if other = connection then s else t.sessions other, group⟩

/-- The answer to a signal, if it has one, and what it leaves behind. -/
def receive (A : Applier ρ) (t : Connections ρ) : Signal → Option Frame × Connections ρ
  | .frame connection f =>
    let (reply, s, group) := (t.sessions connection).receive A f t.group
    (some reply, t.update connection s group)
  | .close connection =>
    let (s, group) := (t.sessions connection).close t.group
    (none, t.update connection s group)

end Connections

/-- A signal, and the connections that it came to. -/
structure Receipt (ρ : Type) where
  before : Connections ρ
  signal : Signal

/-- Connections and the receipts of all that came over them, the latest first. -/
structure Reception (ρ : Type) where
  connections : Connections ρ
  receipts : List (Receipt ρ)

namespace Reception

variable {ρ : Type}

def start (g : TargetGroup ρ) : Reception ρ := ⟨.start g, []⟩

def step (A : Applier ρ) (r : Reception ρ) (signal : Signal) : Reception ρ :=
  ⟨(r.connections.receive A signal).2, ⟨r.connections, signal⟩ :: r.receipts⟩

def steps (A : Applier ρ) (r : Reception ρ) (signals : List Signal) : Reception ρ :=
  signals.foldl (step A) r

end Reception

end GroupReplication
