/-
Runs of a backlog: what can be asked of it, and what a run of such requests shows from the
outside. A channel's epoch is what came since its last successful handshake.
-/
import GroupReplication.Backlog.Basic
import GroupReplication.Proofs.Log.Packets

namespace GroupReplication

/-- What changes a backlog. Members can be changed, and time passes, at any point. -/
inductive Operation where
  | add (payload : Payload) (transient fromGateway : Bool)
  | handshake (target : String) (request : HandshakeRequest)
  | poll (target : String) (force : Bool)
  | confirm (target : String) (key : Nat)
  | recordError (target : String) (key : Nat) (error : Error)
  | disconnect (target : String)
  | detach (target : String)
  | setProducerState (target : String) (state : Bytes)
  | compact (limit : Nat)
  | validate
  | close
  | regroup (membership : Membership)
  | wait (time : Nat)

namespace Operation

/-- What the operation leaves of a backlog, whether it succeeds or not. -/
def after (b : Backlog) : Operation → Backlog
  | add payload transient fromGateway =>
    ((Backlog.addPayload payload transient fromGateway).perform b).2
  | handshake target request => ((Backlog.handshake target request).perform b).2
  | poll target force => ((Backlog.poll target force).perform b).2
  | confirm target key => ((Backlog.confirm target key).perform b).2
  | recordError target key error => ((Backlog.recordError target key error).perform b).2
  | disconnect target => ((Backlog.disconnect target).perform b).2
  | detach target => ((Backlog.detach target).perform b).2
  | setProducerState target state => ((Backlog.setProducerState target state).perform b).2
  | compact limit => ((Backlog.compact limit).perform b).2
  | validate => (Backlog.validate.perform b).2
  | close => (Backlog.close.perform b).2
  | regroup membership => { b with membership }
  | wait time => { b with now := b.now + time }

end Operation

/-- An operation, and the backlog that it was asked of. -/
structure Turn where
  before : Backlog
  operation : Operation

namespace Turn

def after (t : Turn) : Backlog := t.operation.after t.before

/-- The answer to an add, if the operation is one that succeeded. -/
def added? (t : Turn) : Option (Option Nat) :=
  match t.operation with
  | .add payload transient fromGateway =>
    ((Backlog.addPayload payload transient fromGateway).perform t.before).1.toOption
  | _ => none

/-- The packet that was logged. -/
def appended? (t : Turn) : Option Packet :=
  match t.operation, t.added? with
  | .add payload transient fromGateway, some (some key) =>
    some { key, weight := payload.defaultWeight, transient, fromGateway, payload }
  | _, _ => none

/-- Where delivery to `target` starts, if a handshake with it succeeded. -/
def start? (target : String) (t : Turn) : Option Nat :=
  match t.operation with
  | .handshake name request =>
    if name = target then
      ((Backlog.handshake name request).perform t.before).1.toOption.map (·.startKey)
    else none
  | _ => none

/-- The batch that `target` was handed. -/
def batch? (target : String) (t : Turn) : Option (List Packet) :=
  match t.operation with
  | .poll name force =>
    if name = target then
      (((Backlog.poll name force).perform t.before).1.toOption).join
    else none
  | _ => none

end Turn

/-- A backlog and the turns that led to it, the latest first. -/
structure Run where
  backlog : Backlog
  turns : List Turn

namespace Run

def start (b : Backlog) : Run := ⟨b, []⟩

def step (r : Run) (op : Operation) : Run := ⟨op.after r.backlog, ⟨r.backlog, op⟩ :: r.turns⟩

def steps (r : Run) (ops : List Operation) : Run := ops.foldl step r

end Run

def Backlog.run (b : Backlog) (ops : List Operation) : Run := (Run.start b).steps ops

/-! ## What turns show, where the latest come first -/

namespace Turn

/-- The packets that were logged, in their order. -/
def appended : List Turn → List Packet
  | [] => []
  | t :: turns => appended turns ++ t.appended?.toList

/-- The turns since the last successful handshake with `target`. -/
def epoch (target : String) (turns : List Turn) : List Turn :=
  turns.takeWhile fun t => (t.start? target).isNone

/-- Where the last successful handshake with `target` let delivery start. -/
def startKey? (target : String) (turns : List Turn) : Option Nat :=
  turns.findSome? (·.start? target)

/-- The batches that `target` was handed in its epoch, put behind one another. -/
def delivered (target : String) (turns : List Turn) : List Packet :=
  ((epoch target turns).reverse.filterMap (·.batch? target)).flatten

variable {target : String} {t : Turn} {turns : List Turn}

theorem startKey?_cons : startKey? target (t :: turns) = (t.start? target).or (startKey? target turns) := by
  rw [startKey?, List.findSome?_cons]
  cases t.start? target <;> rfl

/-- A successful handshake starts an epoch, in which nothing has been delivered yet. -/
theorem delivered_cons : delivered target (t :: turns) =
    if (t.start? target).isSome then [] else delivered target turns ++ (t.batch? target).getD [] := by
  cases hstart : t.start? target with
  | some start =>
    rw [delivered, epoch, List.takeWhile_cons_of_neg (by simp [hstart])]
    rfl
  | none =>
    rw [delivered, epoch, List.takeWhile_cons_of_pos (by simp [hstart]), List.reverse_cons,
      List.filterMap_append, List.flatten_append]
    cases hbatch : t.batch? target <;> simp [delivered, epoch, hbatch]

end Turn

end GroupReplication
