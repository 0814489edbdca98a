/-
Regular compaction of backlogs. Every pass removes from each registered backlog what all its
channels have confirmed, up to a limit; a backlog that fails does not stop the others.
-/
import GroupReplication.Backlog.Basic

namespace GroupReplication

structure CompactorStats where
  passes : Nat
  packetsRemoved : Nat
  weightRemoved : Nat
  failures : Nat
  deriving Repr, DecidableEq

/-- What one pass removed, and how many backlogs failed. -/
structure TrimPass where
  removed : Nat
  removedWeight : Nat
  failures : Nat
  deriving Repr, DecidableEq

/-- A compactor and the backlogs of its member. -/
structure Compactor where
  settings : CompactionSettings
  backlogs : List Backlog
  /-- The numbers of the backlogs to trim, in the order in which they were registered. -/
  registered : List Nat
  running : Bool
  stats : CompactorStats
  deriving Repr, DecidableEq

namespace Compactor

def new (settings : CompactionSettings) (backlogs : List Backlog) : Compactor :=
  ⟨settings, backlogs, [], false, ⟨0, 0, 0, 0⟩⟩

def register (backlog : Nat) (c : Compactor) : Compactor :=
  { c with registered := c.registered ++ [backlog] }

/-- Whether the backlog with this number belongs to the group. -/
def holds (c : Compactor) (group : String) (backlog : Nat) : Bool :=
  (c.backlogs[backlog]?).any (·.group == group)

/-- Stops trimming a group, and says whether it was trimmed. -/
def unregister (group : String) (c : Compactor) : Bool × Compactor :=
  let kept := c.registered.filter fun i => !c.holds group i
  (kept.length ≠ c.registered.length, { c with registered := kept })

namespace TrimPass

def count (outcome : Except Error Compaction) (p : TrimPass) : TrimPass :=
  match outcome with
  | .ok r => { p with
      removed := p.removed + r.removed
      removedWeight := p.removedWeight + r.removedWeight }
  | .error _ => { p with failures := p.failures + 1 }

end TrimPass

/-- Compacts one backlog. -/
def trim (limit : Nat) (pass : TrimPass) (backlogs : List Backlog) (backlog : Nat) :
    TrimPass × List Backlog :=
  match backlogs[backlog]? with
  | none => (pass, backlogs)
  | some b =>
    let (outcome, b) := (Backlog.compact limit).perform b
    (TrimPass.count outcome pass, backlogs.set backlog b)

/-- Compacts every registered backlog once. -/
def trimOnce (c : Compactor) : TrimPass × Compactor :=
  let (pass, backlogs) := c.registered.foldl
    (fun (pass, backlogs) i => trim c.settings.maxPacketsPerPass pass backlogs i)
    (⟨0, 0, 0⟩, c.backlogs)
  (pass, { c with
    backlogs
    stats := {
      passes := c.stats.passes + 1
      packetsRemoved := c.stats.packetsRemoved + pass.removed
      weightRemoved := c.stats.weightRemoved + pass.removedWeight
      failures := c.stats.failures + pass.failures } })

/-- Several passes one after the other. -/
def trimTimes : Nat → Compactor → Compactor
  | 0, c => c
  | n + 1, c => trimTimes n c.trimOnce.2

/-- A compactor runs once at a time. -/
def start (c : Compactor) : Except Error Compactor :=
  if c.running then .error (.config .compactorRunning) else .ok { c with running := true }

def stop (c : Compactor) : Compactor := { c with running := false }

/-- The passes of a running compactor within some time: one at once, and then one after every
interval. -/
def passesWithin (c : Compactor) (time : Nat) : Nat := time / c.settings.interval + 1

end Compactor

end GroupReplication
