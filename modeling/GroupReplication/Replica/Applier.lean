/-
What a target does to its copy of a group. A conflict leaves the decision to the conflict
settings; any other failure is fatal for the call.
-/
import GroupReplication.Conflict

namespace GroupReplication

inductive ApplyError where
  | conflict (conflict : Conflict)
  | fatal (text : String)
  deriving Repr, DecidableEq

namespace ApplyError

def name : ApplyError → String
  | .conflict c => c.name
  | .fatal _ => "Fatal"

def message : ApplyError → String
  | .conflict c => c.message
  | .fatal text => text

end ApplyError

/-- A change that a packet asks for, one at a time. -/
inductive Effect where
  | entry (op : EntryOperation)
  | addIndex (index : TypeIndex)
  | introduce (descriptor : TypeDescriptor)
  deriving Repr, DecidableEq

namespace Effect

def kind : Effect → OperationKind
  | .entry op => op.kind
  | .addIndex _ => .addTypeIndex
  | .introduce _ => .introduceType

end Effect

/-- The calls that a target makes on a copy of type `ρ`. Each gives the copy back as it left
it, whether it failed or not. -/
structure Applier (ρ : Type) where
  apply : (effect : Effect) → (transient : Bool) → ρ → Except ApplyError Unit × ρ
  /-- Applies an operation whatever is stored under its uid. -/
  overwrite : EntryOperation → ρ → Except ApplyError Unit × ρ
  /-- Drops all data of a group ahead of a full resync. -/
  clearGroup : (group : String) → ρ → Except ApplyError Unit × ρ

end GroupReplication
