/-
A log that keeps its packets in memory, and at most `capacity` of them if it has one.
-/
import GroupReplication.Log.Basic

namespace GroupReplication

structure MemoryLog where
  name : String
  packets : List Packet
  weight : Nat
  lastAppended : Option Nat
  capacity : Option Nat
  announced : LogSize
  closed : Bool
  damage : Option LogDamage
  deriving Repr, DecidableEq

namespace MemoryLog

def empty (name : String) (capacity : Option Nat) : MemoryLog where
  name := name
  packets := []
  weight := 0
  lastAppended := none
  capacity := capacity
  announced := ⟨0, 0⟩
  closed := false
  damage := none

def firstKey (l : MemoryLog) : Option Nat := l.packets.head?.map (·.key)

def lastKey (l : MemoryLog) : Option Nat := l.packets.getLast?.map (·.key)

/-- Fails on a log that is closed or was found damaged. -/
def guard (l : MemoryLog) : Except Error Unit :=
  if l.closed then .error (.storage (.closed l.name))
  else match l.damage with
    | some damage => .error (.logCompromised (.log l.name damage))
    | none => .ok ()

def announce (l : MemoryLog) : MemoryLog :=
  { l with announced := ⟨l.packets.length, l.weight⟩ }

def checkCapacity (l : MemoryLog) (added : Nat) : Except Error Unit :=
  match l.capacity with
  | some most =>
    if most < l.packets.length + added then
      .error (.storageFull l.name (l.packets.length + added) most)
    else .ok ()
  | none => .ok ()

def append (added : List Packet) : Action MemoryLog Unit := do
  let l ← get
  Action.decided l.guard
  Action.decided (Log.checkAppend l.lastAppended (added.map (·.key)))
  Action.decided (l.checkCapacity added.length)
  set ({ l with
    packets := l.packets ++ added
    weight := l.weight + Packet.totalWeight added
    lastAppended := (added.getLast?.map (·.key)).or l.lastAppended } : MemoryLog).announce

/-- Takes packets from the head as long as `removable` holds, and at most `limit` of them if
there is a limit. -/
def takeHead (limit : Option Nat) (removable : Packet → Bool) : Action MemoryLog (List Packet) := do
  let l ← get
  let within := match limit with
    | some n => l.packets.take n
    | none => l.packets
  let removed := within.takeWhile removable
  set ({ l with
    packets := l.packets.drop removed.length
    weight := l.weight - Packet.totalWeight removed } : MemoryLog).announce
  return removed

/-- Removes up to `count` packets from the head, none with a key above `frontier`. -/
def removeFirst (count : Nat) (frontier : Option Nat) : Action MemoryLog (List Packet) := do
  Action.decided (← get).guard
  takeHead (some count) fun p => frontier.all (p.key ≤ ·)

/-- Removes every packet with a key up to `last`. -/
def deleteOldest (last : Nat) : Action MemoryLog Nat := do
  Action.decided (← get).guard
  return (← takeHead none (·.key ≤ last)).length

/-- The packets from `start` on. -/
def readFrom (l : MemoryLog) (start : Option Nat) : Except Error (List Packet) := do
  l.guard
  match start with
  | some key => return l.packets.dropWhile (·.key < key)
  | none => return l.packets

def compact (first last : Nat) : Action MemoryLog Compaction := do
  Action.decided (← get).guard
  Action.decided (Log.checkRange first last (← get).firstKey)
  let removed ← takeHead none (·.key ≤ last)
  return {
    range := KeyRange.spanning? (removed.map (·.key))
    removed := removed.length
    removedWeight := Packet.totalWeight removed
    remainingWeight := (← get).weight }

/-- Fails if the packets or their totals are out of step, and then the log is of no more use. -/
def validate : Action MemoryLog Unit := do
  let l ← get
  Action.decided l.guard
  match Log.checkSequence (l.packets.map (·.key)) (l.packets.map (·.weight))
      ⟨l.announced.packets, l.weight⟩ with
  | .ok () => return ()
  | .error fault =>
    set { l with damage := some (.sequence fault) }
    throw (.logCompromised (.log l.name (.sequence fault)))

def close : Action MemoryLog Unit :=
  modify fun l => ({ l with closed := true, packets := [], weight := 0 } : MemoryLog).announce

end MemoryLog

end GroupReplication
