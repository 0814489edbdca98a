/-
A copy of a group held in memory. An operation that fails leaves it as it was.
-/
import GroupReplication.Replica.Applier
import GroupReplication.Table

namespace GroupReplication

structure StoredEntry where
  typeName : String
  version : UInt64
  data : Bytes
  /-- Fields set by changes. -/
  fields : Table String Bytes
  transient : Bool
  deriving Repr, DecidableEq

structure Replica where
  entries : Table String StoredEntry
  /-- Entries that local transactions hold. -/
  locks : Table String UInt64
  types : Table String TypeDescriptor
  indexes : Table String (List String)
  /-- Whether an operation needs its type to be introduced. -/
  requireTypes : Bool
  deriving Repr, DecidableEq

namespace Replica

def empty (requireTypes : Bool) : Replica := ⟨[], [], [], [], requireTypes⟩

def entry? (r : Replica) (uid : String) : Option StoredEntry := r.entries.get? uid

def hasType (r : Replica) (typeName : String) : Bool := (r.types.get? typeName).isSome

def indexesOf (r : Replica) (typeName : String) : List String :=
  (r.indexes.get? typeName).getD []

def lock (uid : String) (txn : UInt64) (r : Replica) : Replica :=
  { r with locks := r.locks.insert uid txn }

def unlock (uid : String) (r : Replica) : Replica := { r with locks := r.locks.erase uid }

def checkType (r : Replica) (typeName : String) : Except Conflict Unit :=
  if r.requireTypes && !r.hasType typeName then .error (.missingTypeMetadata typeName)
  else .ok ()

def checkUnlocked (r : Replica) (uid : String) : Except Conflict Unit :=
  match r.locks.get? uid with
  | some txn => .error (.lockedByTransaction uid txn)
  | none => .ok ()

def find (r : Replica) (uid : String) : Except Conflict StoredEntry :=
  match r.entry? uid with
  | some e => .ok e
  | none => .error (.notInSpace uid)

def store (uid : String) (e : StoredEntry) (r : Replica) : Replica :=
  { r with entries := r.entries.insert uid e }

def drop (uid : String) (r : Replica) : Replica := { r with entries := r.entries.erase uid }

def entryOf (e : EntryImage) (transient : Bool) : StoredEntry :=
  ⟨e.typeName, e.version, e.data, [], transient⟩

/-- The entry with new values in some of its fields. -/
def changed (c : EntryChange) (e : StoredEntry) : StoredEntry :=
  { e with
    version := c.version
    fields := c.fields.foldl (fun fields f => fields.insert f.1 f.2) e.fields }

def applyWrite (e : EntryImage) (transient : Bool) (r : Replica) : Except Conflict Replica :=
  match r.entry? e.uid with
  | some _ => .error (.alreadyInSpace e.uid)
  | none => .ok (r.store e.uid (entryOf e transient))

/-- An update needs an older version, and keeps the entry's type and changed fields. -/
def applyUpdate (e : EntryImage) (transient : Bool) (r : Replica) : Except Conflict Replica := do
  let stored ← r.find e.uid
  r.checkUnlocked e.uid
  if e.version ≤ stored.version then
    throw (.versionConflict e.uid e.version stored.version)
  return r.store e.uid { stored with version := e.version, data := e.data, transient }

/-- A take needs a version that is not newer. -/
def applyTake (e : EntryImage) (r : Replica) : Except Conflict Replica := do
  let stored ← r.find e.uid
  r.checkUnlocked e.uid
  if e.version < stored.version then
    throw (.versionConflict e.uid e.version stored.version)
  return r.drop e.uid

/-- A change needs the version that it was computed against; one that was already applied does
nothing. -/
def applyChange (c : EntryChange) (r : Replica) : Except Conflict Replica := do
  let stored ← r.find c.uid
  if stored.version = c.version then
    return r
  r.checkUnlocked c.uid
  if stored.version ≠ c.previousVersion then
    throw (.versionConflict c.uid c.previousVersion stored.version)
  return r.store c.uid (changed c stored)

def applyOperation (op : EntryOperation) (transient : Bool) (r : Replica) :
    Except Conflict Replica := do
  r.checkType op.typeName
  match op with
  | .write e => r.applyWrite e transient
  | .update e => r.applyUpdate e transient
  | .take e => r.applyTake e
  | .change c => r.applyChange c

/-- A type needs its super type to be introduced before it. -/
def introduceType (d : TypeDescriptor) (r : Replica) : Except Conflict Replica := do
  if let some parent := d.superType then
    r.checkType parent
  return { r with types := r.types.insert d.typeName d }

/-- Adds the names that are not there yet. -/
def addIndexes (old added : List String) : List String :=
  added.foldl (fun names name => if names.contains name then names else names ++ [name]) old

def addTypeIndex (i : TypeIndex) (r : Replica) : Except Conflict Replica :=
  if r.hasType i.typeName then
    let names := addIndexes (r.indexesOf i.typeName) i.indexNames
    .ok { r with indexes := r.indexes.insert i.typeName names }
  else .error (.missingTypeMetadata i.typeName)

def apply (effect : Effect) (transient : Bool) (r : Replica) : Except Conflict Replica :=
  match effect with
  | .entry op => r.applyOperation op transient
  | .addIndex i => r.addTypeIndex i
  | .introduce d => r.introduceType d

/-- Only a change needs an entry to be there. -/
def overwrite (op : EntryOperation) (r : Replica) : Except ApplyError Replica :=
  match op with
  | .write e | .update e => .ok (r.store e.uid (entryOf e false))
  | .take e => .ok (r.drop e.uid)
  | .change c =>
    match r.entry? c.uid with
    | some e => .ok (r.store c.uid (changed c e))
    | none => .error (.fatal s!"cannot overwrite missing entry {c.uid} with a change")

/-- Types and their indexes stay. -/
def clear (r : Replica) : Replica := { r with entries := [], locks := [] }

/-- A call that leaves the copy as it was when it fails. -/
def attempt (r : Replica) : Except ApplyError Replica → Except ApplyError Unit × Replica
  | .ok r => (.ok (), r)
  | .error e => (.error e, r)

def applier : Applier Replica where
  apply effect transient r := attempt r ((r.apply effect transient).mapError .conflict)
  overwrite op r := attempt r (r.overwrite op)
  clearGroup _ r := (.ok (), r.clear)

end Replica

/-- Calls that are made to fail, so that recovery can be tried out. -/
structure InjectedFailures where
  uids : List String
  overwriteUids : List String
  clear : Bool
  deriving Repr, DecidableEq

namespace InjectedFailures

def nothing : InjectedFailures := ⟨[], [], false⟩

/-- The same calls, some of which fail and change nothing. -/
def applier (f : InjectedFailures) {ρ : Type} (inner : Applier ρ) : Applier ρ where
  apply effect transient r :=
    match effect with
    | .entry op =>
      if f.uids.contains op.uid then
        (.error (.fatal ("injected apply failure for " ++ op.uid)), r)
      else inner.apply effect transient r
    | _ => inner.apply effect transient r
  overwrite op r :=
    if f.overwriteUids.contains op.uid then
      (.error (.fatal ("injected overwrite failure for " ++ op.uid)), r)
    else inner.overwrite op r
  clearGroup group r :=
    if f.clear then (.error (.fatal ("injected clear failure for " ++ group)), r)
    else inner.clearGroup group r

end InjectedFailures

end GroupReplication
