/-
What happens when an operation meets a local state that already reflects it, or differs from
it. The kind of the operation and the conflict decide: apply it anyway, skip what is expected
of a replay, or report a divergence. Nothing of this reaches the sender.
-/
import GroupReplication.Packet.Basic
import GroupReplication.Settings

namespace GroupReplication

/-- The local condition that keeps an operation from being applied as it is. -/
inductive Conflict where
  | alreadyInSpace (uid : String)
  | notInSpace (uid : String)
  | lockedByTransaction (uid : String) (txn : UInt64)
  | versionConflict (uid : String) (expected actual : UInt64)
  | missingTypeMetadata (typeName : String)
  deriving Repr, DecidableEq

namespace Conflict

def name : Conflict → String
  | .alreadyInSpace _ => "AlreadyInSpace"
  | .notInSpace _ => "NotInSpace"
  | .lockedByTransaction .. => "LockedByTransaction"
  | .versionConflict .. => "VersionConflict"
  | .missingTypeMetadata _ => "MissingTypeMetadata"

def message : Conflict → String
  | .alreadyInSpace uid => s!"entry {uid} already in space"
  | .notInSpace uid => s!"entry {uid} not in space"
  | .lockedByTransaction uid txn => s!"entry {uid} locked by transaction {txn}"
  | .versionConflict uid expected actual =>
    s!"entry {uid} version conflict: replicated version {expected}, local version {actual}"
  | .missingTypeMetadata typeName => s!"missing type metadata for {typeName}"

end Conflict

inductive Resolution where
  | apply
  | ignore (severity : Severity)
  | report (severity : Severity)
  deriving Repr, DecidableEq

namespace ConflictSettings

/-- A central store takes over what it is sent, transient entries apart. -/
def overrules (s : ConflictSettings) (transient : Bool) : Bool :=
  s.targetKind == .centralStore && !transient

def decide (s : ConflictSettings) (kind : OperationKind) (conflict : Conflict)
    (transient : Bool) : Resolution :=
  match kind, conflict with
  | .write, .alreadyInSpace _ =>
    if s.overrules transient then .apply else .ignore s.alreadyInSpaceSeverity
  | .take, .notInSpace _ =>
    .ignore (if s.overrules transient then s.notInSpaceSeverity.lower else s.notInSpaceSeverity)
  | .update, .notInSpace _ | .change, .notInSpace _ => .ignore s.notInSpaceSeverity
  | .update, .lockedByTransaction .. | .take, .lockedByTransaction ..
  | .change, .lockedByTransaction .. => .ignore .error
  | .update, .versionConflict .. | .take, .versionConflict .. => .ignore .warn
  | .take, .missingTypeMetadata _ => .ignore .error
  | _, _ => .report .error

end ConflictSettings

/-- One line of the log. -/
structure LogLine where
  severity : Severity
  text : String
  deriving Repr, DecidableEq

namespace Resolution

/-- What is logged about a conflict. -/
def logLine (r : Resolution) (group : String) (key : Nat) (kind : OperationKind)
    (conflict : Conflict) : LogLine :=
  let lead := s!"Group {group} key {key}: "
  match r with
  | .apply => ⟨.debug, lead ++ kind.name ++ " overwrites (" ++ conflict.message ++ ")"⟩
  | .ignore severity =>
    let hint := match conflict with
      | .missingTypeMetadata _ => "; check external data source replication settings"
      | _ => ""
    ⟨severity, lead ++ "ignoring replicated " ++ kind.name ++ ": " ++ conflict.message ++ hint⟩
  | .report severity =>
    ⟨severity,
      lead ++ "unexpected conflict for replicated " ++ kind.name ++ ": " ++ conflict.message⟩

end Resolution

end GroupReplication
