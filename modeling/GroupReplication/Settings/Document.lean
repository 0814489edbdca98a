/-
Settings written as a TOML document. A section or a field that is left out keeps its standard
value, and what no setting is named after is passed over.
-/
import GroupReplication.Settings
import GroupReplication.Toml.Document

namespace GroupReplication

open Toml (Node Rows)

namespace Toml.Node

def text? : Node → Option String
  | .text s => some s
  | _ => none

def texts? : Node → Option (List String)
  | .array items => items.mapM text?
  | _ => none

def natural? (most : Nat) : Node → Option Nat
  | .integer n => if 0 ≤ n && n ≤ most then some n.toNat else none
  | _ => none

/-- A table or an array that holds nothing. -/
def isEmpty : Node → Bool
  | .table _ rows => rows.isEmpty
  | .array items => items.isEmpty
  | .elements tables => tables.isEmpty
  | _ => false

/-- A named choice, also in the form of a table whose only row has that name and is empty. -/
def choice? {α : Type} (choices : Table String α) : Node → Option α
  | .text name => choices.get? name
  | .table _ [(name, content)] => if content.isEmpty then choices.get? name else none
  | _ => none

/-- The fields of a section: the rows of a table, or the items of an array in the order of the
fields. -/
def fields? (names : List String) : Node → Option Rows
  | .table _ rows => some rows
  | .array items => some (names.zip items)
  | .elements tables => some (names.zip (tables.map (.table .header)))
  | .moment => some []
  | _ => none

end Toml.Node

namespace FullPolicy

def names : Table String FullPolicy := [("reject", .reject), ("discard_oldest", .discardOldest)]

end FullPolicy

namespace TargetKind

def names : Table String TargetKind := [("clustered", .clustered), ("central_store", .centralStore)]

end TargetKind

namespace AttachPolicy

def names : Table String AttachPolicy :=
  [("single_active_source", .singleActiveSource), ("multi_source", .multiSource)]

end AttachPolicy

namespace Severity

def names : Table String Severity := all.map fun s => (s.name, s)

end Severity

/-- A part of a settings document, with the path to it. -/
structure Section where
  path : List String
  rows : Rows

namespace Section

/-- The value of a field, or its standard value. -/
def get {α : Type} (s : Section) (name : String) (read : Node → Option α) (standard : α) :
    Except SettingsFault α :=
  match s.rows.get? name with
  | none => .ok standard
  | some node =>
    match read node with
    | some a => .ok a
    | none => .error (.field (s.path ++ [name]))

def natural (s : Section) (name : String) (standard : Nat) : Except SettingsFault Nat :=
  s.get name (Node.natural? (2 ^ 64 - 1)) standard

/-- A section inside, which is empty if it is left out. -/
def within (s : Section) (name : String) (fields : List String) : Except SettingsFault Section :=
  (⟨s.path ++ [name], ·⟩) <$> s.get name (Node.fields? fields) []

def membership (s : Section) : Except SettingsFault Membership := do
  let s ← s.within "group" ["name", "sources", "targets"]
  return {
    name := ← s.get "name" Node.text? ""
    sources := ← s.get "sources" Node.texts? []
    targets := ← s.get "targets" Node.texts? [] }

def backlog (s : Section) : Except SettingsFault BacklogSettings := do
  let d := BacklogSettings.standard
  let s ← s.within "backlog" ["max_weight", "full_policy", "max_batch_size", "max_batch_age",
    "discarded_packet_weight"]
  return {
    maxWeight := ← s.natural "max_weight" d.maxWeight
    fullPolicy := ← s.get "full_policy" (Node.choice? FullPolicy.names) d.fullPolicy
    maxBatchSize := ← s.natural "max_batch_size" d.maxBatchSize
    maxBatchAge := ← s.natural "max_batch_age" d.maxBatchAge
    discardedPacketWeight := ← s.natural "discarded_packet_weight" d.discardedPacketWeight }

def compaction (s : Section) : Except SettingsFault CompactionSettings := do
  let d := CompactionSettings.standard
  let s ← s.within "compaction" ["interval", "max_packets_per_pass"]
  return {
    interval := ← s.natural "interval" d.interval
    maxPacketsPerPass := ← s.natural "max_packets_per_pass" d.maxPacketsPerPass }

def conflict (s : Section) : Except SettingsFault ConflictSettings := do
  let d := ConflictSettings.standard
  let s ← s.within "conflict"
    ["target_kind", "already_in_space_severity", "not_in_space_severity"]
  let severity := Node.choice? Severity.names
  return {
    targetKind := ← s.get "target_kind" (Node.choice? TargetKind.names) d.targetKind
    alreadyInSpaceSeverity :=
      ← s.get "already_in_space_severity" severity d.alreadyInSpaceSeverity
    notInSpaceSeverity := ← s.get "not_in_space_severity" severity d.notInSpaceSeverity }

def delivery (s : Section) : Except SettingsFault DeliverySettings := do
  let d := DeliverySettings.standard
  let s ← s.within "delivery" ["poll_interval", "reconnect_attempts", "reconnect_initial_delay",
    "reconnect_max_delay"]
  return {
    pollInterval := ← s.natural "poll_interval" d.pollInterval
    reconnectAttempts :=
      ← s.get "reconnect_attempts" (Node.natural? (2 ^ 32 - 1)) d.reconnectAttempts
    reconnectInitialDelay := ← s.natural "reconnect_initial_delay" d.reconnectInitialDelay
    reconnectMaxDelay := ← s.natural "reconnect_max_delay" d.reconnectMaxDelay }

def settings (s : Section) : Except SettingsFault Settings := do
  let policy ← s.get "attach_policy" (Node.choice? AttachPolicy.names) .singleActiveSource
  return {
    group := ← s.membership
    backlog := ← s.backlog
    compaction := ← s.compaction
    conflict := ← s.conflict
    attachPolicy := policy
    delivery := ← s.delivery }

end Section

namespace Settings

/-- Reads settings and checks them. -/
def read (text : String) : Except Error Settings := do
  let some document := Toml.read text | throw (.config (.unreadable .notADocument))
  let rows := (document.fields? []).getD []
  let s ← (Section.settings ⟨[], rows⟩).mapError fun fault => .config (.unreadable fault)
  s.check.mapError .config
  return s

end Settings

end GroupReplication
