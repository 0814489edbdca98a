/-
The settings of a group on one member. Times are in milliseconds.
-/
import GroupReplication.Error
import GroupReplication.Severity

namespace GroupReplication

/-- What a backlog does with a packet that would make it heavier than it may be: fail, or make
room by dropping the oldest packets. -/
inductive FullPolicy where
  | reject
  | discardOldest
  deriving Repr, DecidableEq

namespace FullPolicy

/-- The text with the letters A to Z in lower case. -/
def lowered (text : String) : String := String.ofList (text.toList.map Char.toLower)

/-- Reads a policy, in any mixture of cases. -/
def ofText? (text : String) : Option FullPolicy :=
  match lowered text with
  | "reject" => some .reject
  | "discard_oldest" | "discard-oldest" => some .discardOldest
  | _ => none

/-- What is said of a text that is no policy. -/
def refusal (text : String) : String := "unknown backlog full policy: " ++ lowered text

end FullPolicy

structure BacklogSettings where
  maxWeight : Nat
  fullPolicy : FullPolicy
  maxBatchSize : Nat
  maxBatchAge : Nat
  /-- The weight that a discarded packet is charged at. -/
  discardedPacketWeight : Nat
  deriving Repr, DecidableEq

namespace BacklogSettings

def standard : BacklogSettings := ⟨100000, .reject, 100, 50, 1⟩

def check (s : BacklogSettings) : Except ConfigCause Unit := do
  if s.maxWeight = 0 then throw .maxWeightZero
  if s.maxBatchSize = 0 then throw .maxBatchSizeZero

end BacklogSettings

structure CompactionSettings where
  interval : Nat
  maxPacketsPerPass : Nat
  deriving Repr, DecidableEq

namespace CompactionSettings

def standard : CompactionSettings := ⟨500, 10000⟩

def check (s : CompactionSettings) : Except ConfigCause Unit := do
  if s.interval = 0 then throw .intervalZero
  if s.maxPacketsPerPass = 0 then throw .passLimitZero

end CompactionSettings

/-- A target is one of the peers of a clustered space, or a store that archives it. -/
inductive TargetKind where
  | clustered
  | centralStore
  deriving Repr, DecidableEq

structure ConflictSettings where
  targetKind : TargetKind
  /-- For a write whose entry is already there. -/
  alreadyInSpaceSeverity : Severity
  /-- For an update, a take or a change whose entry is missing. -/
  notInSpaceSeverity : Severity
  deriving Repr, DecidableEq

namespace ConflictSettings

def standard : ConflictSettings := ⟨.clustered, .debug, .info⟩

end ConflictSettings

/-- How many sources may feed a target group at a time. -/
inductive AttachPolicy where
  | singleActiveSource
  | multiSource
  deriving Repr, DecidableEq

structure DeliverySettings where
  pollInterval : Nat
  reconnectAttempts : Nat
  reconnectInitialDelay : Nat
  reconnectMaxDelay : Nat
  deriving Repr, DecidableEq

namespace DeliverySettings

def standard : DeliverySettings := ⟨5, 5, 50, 5000⟩

/-- Short pauses, for links inside one process. -/
def fast : DeliverySettings := ⟨1, 3, 1, 10⟩

def check (s : DeliverySettings) : Except ConfigCause Unit := do
  if s.reconnectAttempts = 0 then throw .noReconnectAttempts
  if s.reconnectMaxDelay < s.reconnectInitialDelay then throw .reconnectDelays

end DeliverySettings

/-- Who takes part in a group. An empty list lets anyone in. -/
structure Membership where
  name : String
  sources : List String
  targets : List String
  deriving Repr, DecidableEq

namespace Membership

def openTo (name : String) : Membership := ⟨name, [], []⟩

def allowsSource (m : Membership) (source : String) : Bool :=
  m.sources.isEmpty || m.sources.contains source

def allowsTarget (m : Membership) (target : String) : Bool :=
  m.targets.isEmpty || m.targets.contains target

end Membership

structure Settings where
  group : Membership
  backlog : BacklogSettings
  compaction : CompactionSettings
  conflict : ConflictSettings
  attachPolicy : AttachPolicy
  delivery : DeliverySettings
  deriving Repr, DecidableEq

namespace Settings

def standard (group : String) : Settings :=
  ⟨.openTo group, .standard, .standard, .standard, .singleActiveSource, .standard⟩

/-- The first thing that is wrong, section by section. -/
def check (s : Settings) : Except ConfigCause Unit := do
  if s.group.name.isEmpty then throw .groupUnnamed
  s.backlog.check
  s.compaction.check
  s.delivery.check

end Settings

end GroupReplication
