/-
The log of a group, in memory or in a directory.
-/
import GroupReplication.Log.File
import GroupReplication.Log.Memory

namespace GroupReplication

inductive PacketLog where
  | memory (log : MemoryLog)
  | file (log : FileLog)
  deriving Repr, DecidableEq

/-- The packets that a reader of a log meets, and the error that ends it early, if one does. -/
structure LogReading where
  packets : List Packet
  error : Option Error
  deriving Repr, DecidableEq

namespace LogReading

/-- The first `n` packets; an error behind them does no harm. -/
def first (r : LogReading) (n : Nat) : Except Error (List Packet) :=
  if n ≤ r.packets.length then .ok (r.packets.take n)
  else match r.error with
    | some e => .error e
    | none => .ok r.packets

def all (r : LogReading) : Except Error (List Packet) :=
  match r.error with
  | some e => .error e
  | none => .ok r.packets

end LogReading

namespace PacketLog

def size : PacketLog → LogSize
  | .memory l => l.announced
  | .file l => l.announced

def weight : PacketLog → Nat
  | .memory l => l.weight
  | .file l => l.weight

def firstKey : PacketLog → Option Nat
  | .memory l => l.firstKey
  | .file l => l.firstKey

def lastKey : PacketLog → Option Nat
  | .memory l => l.lastKey
  | .file l => l.lastKey

/-- The highest key ever added, kept or not. -/
def lastAppended : PacketLog → Option Nat
  | .memory l => l.lastAppended
  | .file l => l.lastAppended

def isClosed : PacketLog → Bool
  | .memory l => l.closed
  | .file l => l.isClosed

/-- The key that comes after all that were ever added. -/
def nextKey (l : PacketLog) : Nat := l.lastAppended.elim 1 (· + 1)

/-- The first key that a reader can still get. -/
def earliest (l : PacketLog) : Nat := l.firstKey.getD l.nextKey

def readFrom (start : Option Nat) : PacketLog → Except Error LogReading
  | .memory l => (⟨·, none⟩) <$> l.readFrom start
  | .file l => (fun r => ⟨r.packets, r.fault.map (·.toError)⟩) <$> l.readFrom start

/-- The same operation on whichever log it is. -/
def either {α : Type} (onMemory : Action MemoryLog α) (onFile : Action FileLog α) :
    Action PacketLog α
  | .memory l => let (r, l) := Action.perform onMemory l; (r, .memory l)
  | .file l => let (r, l) := Action.perform onFile l; (r, .file l)

def append (added : List Packet) : Action PacketLog Unit :=
  either (MemoryLog.append added) (FileLog.append added)

def removeFirst (count : Nat) (frontier : Option Nat) : Action PacketLog (List Packet) :=
  either (MemoryLog.removeFirst count frontier) (FileLog.removeFirst count frontier)

def deleteOldest (last : Nat) : Action PacketLog Nat :=
  either (MemoryLog.deleteOldest last) (FileLog.deleteOldest last)

def compact (first last : Nat) : Action PacketLog Compaction :=
  either (MemoryLog.compact first last) (FileLog.compact first last)

def validate : Action PacketLog Unit := either MemoryLog.validate FileLog.validate

def close : Action PacketLog Unit := either MemoryLog.close FileLog.close

end PacketLog

end GroupReplication
