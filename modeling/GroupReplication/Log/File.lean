/-
A log kept in a directory. Removing packets only moves the mark of the first live key; once
the dead bytes in front outweigh the live ones, the live ones are copied into a fresh data
file. Opening scans the data file once: records below the mark are passed over, a torn record
at the end is cut off, and any other damage keeps the log from opening.
-/
import GroupReplication.Log.Basic
import GroupReplication.Log.Directory
import GroupReplication.Log.Record

namespace GroupReplication

structure FileOptions where
  maxBytes : Option Nat
  reclaimMinDeadBytes : Nat
  deriving Repr, DecidableEq

/-- Where a log's appends go: to the data file in its directory, to a file that no longer has
a name there, or nowhere. -/
inductive Handle where
  | attached
  | orphaned
  | closed
  deriving Repr, DecidableEq

structure IndexEntry where
  key : Nat
  offset : Nat
  length : Nat
  weight : Nat
  deriving Repr, DecidableEq

structure FileLog where
  directory : Directory
  options : FileOptions
  handle : Handle
  index : List IndexEntry
  headOffset : Nat
  endOffset : Nat
  weight : Nat
  lastAppended : Option Nat
  announced : LogSize
  damage : Option LogDamage
  deriving Repr, DecidableEq

namespace FileLog

def name (l : FileLog) : String := l.directory.name

def firstKey (l : FileLog) : Option Nat := l.index.head?.map (·.key)

def lastKey (l : FileLog) : Option Nat := l.index.getLast?.map (·.key)

/-- The bytes between the head and the end of the data file. -/
def liveBytes (l : FileLog) : Nat := l.endOffset - l.headOffset

def isClosed (l : FileLog) : Bool := l.handle == .closed

/-- Fails on a log that is closed or was found damaged. -/
def guard (l : FileLog) : Except Error Unit :=
  if l.isClosed then .error (.storage (.closed l.name))
  else match l.damage with
    | some damage => .error (.logCompromised (.log l.name damage))
    | none => .ok ()

def announce (l : FileLog) : FileLog :=
  { l with announced := ⟨l.index.length, l.weight⟩ }

/-- The log refuses all further use. -/
def condemn {α : Type} (damage : LogDamage) : Action FileLog α := do
  modify fun l => { l with damage := some damage }
  throw (.logCompromised (.log (← get).name damage))

def IndexEntry.ofRecord (r : Record.Located) : IndexEntry :=
  ⟨r.packet.key, r.offset, r.length, r.packet.weight⟩

def totalWeight (entries : List IndexEntry) : Nat :=
  (entries.map (·.weight)).foldr (· + ·) 0

theorem totalWeight_append (before behind : List IndexEntry) :
    totalWeight (before ++ behind) = totalWeight before + totalWeight behind := by
  induction before with
  | nil => exact (Nat.zero_add _).symm
  | cons e before ih => exact (congrArg (e.weight + ·) ih).trans (Nat.add_assoc ..).symm

/-- The highest of some keys and `floor`. -/
def highest (floor : Option Nat) (keys : List Nat) : Option Nat :=
  keys.foldl (fun top key => some (top.elim key (max key))) floor

/-- The log that the records of a scan make up, when keys below `head` are dead. -/
def recovered (d : Directory) (options : FileOptions) (head : Option Nat) (s : Record.Scan) :
    FileLog :=
  let live := (s.records.map IndexEntry.ofRecord).filter (fun e => head.getD 0 ≤ e.key)
  announce {
    directory := d
    options := options
    handle := .attached
    index := live
    headOffset := (live.head?.map (·.offset)).getD s.endOffset
    endOffset := s.endOffset
    weight := totalWeight live
    lastAppended := highest (head.bind fun k => if k = 0 then none else some (k - 1))
      (s.records.map (·.packet.key))
    announced := ⟨0, 0⟩
    damage := none }

/-- Opens the log in a directory, or makes an empty one; gives back the directory as opening
left it, also when it fails. -/
def openIn (d : Directory) (options : FileOptions) : Except Error FileLog × Directory :=
  match d.make with
  | .error cause => (.error (.io cause), d)
  | .ok d =>
    match d.readHead with
    | .error e => (.error e, d)
    | .ok head =>
      let d := d.create
      let bytes := d.data.getD []
      match Record.scan 0 bytes with
      | .error damage => (.error (.logCompromised (.log d.name damage)), d)
      | .ok s =>
        let d := if s.torn then { d with data := some (bytes.take s.endOffset) } else d
        let l := recovered d options head s
        match Log.checkSequence (l.index.map (·.key)) (l.index.map (·.weight)) l.announced with
        | .error fault => (.error (.logCompromised (.log d.name (.sequence fault))), d)
        | .ok () => (.ok l, d)

/-- Reads the records of `count` index entries, the first of which stands at `offset`. -/
def readRecords (l : FileLog) (offset endOffset count : Nat) :
    Except Error Record.Reading :=
  match l.directory.data with
  | none => .error (.io .notFound)
  | some bytes => .ok (Record.readMany endOffset count offset (bytes.drop offset))

/-- The packets of neighbouring index entries. -/
def readEntries (l : FileLog) (entries : List IndexEntry) : Except RecordFault (List Packet) :=
  match entries.head?, entries.getLast? with
  | some first, some last =>
    match l.directory.data with
    | none => .error (.unavailable .notFound)
    | some bytes =>
      let r := Record.readMany (last.offset + last.length) entries.length first.offset
        (bytes.drop first.offset)
      match r.fault with
      | some fault => .error fault
      | none => .ok r.packets
  | _, _ => .ok []

/-- Index entries of packets whose records are written behind one another from `offset` on,
and the bytes of those records. -/
def layOut : (offset : Nat) → List Packet → Except FrameFault (List IndexEntry × Bytes)
  | _, [] => .ok ([], [])
  | offset, p :: ps => do
    let bs ← Record.encode p
    let (entries, rest) ← layOut (offset + bs.length) ps
    return (⟨p.key, offset, bs.length, p.weight⟩ :: entries, bs ++ rest)

def checkCapacity (l : FileLog) (added : Nat) : Except Error Unit :=
  match l.options.maxBytes with
  | some most =>
    if most < l.liveBytes + added then
      .error (.storageFull l.name (l.liveBytes + added) most)
    else .ok ()
  | none => .ok ()

/-- Writes at the end of the file that the log holds open. -/
def write (l : FileLog) (bs : Bytes) : FileLog :=
  match l.handle, l.directory.data with
  | .attached, some bytes => { l with directory.data := some (bytes ++ bs) }
  | _, _ => l

def append (added : List Packet) : Action FileLog Unit := do
  let l ← get
  Action.decided l.guard
  Action.decided (Log.checkAppend l.lastAppended (added.map (·.key)))
  let (entries, bs) ← Action.decided ((layOut l.endOffset added).mapError .protocol)
  Action.decided (l.checkCapacity bs.length)
  let endOffset := l.endOffset + bs.length
  set ({ l.write bs with
    index := l.index ++ entries
    headOffset :=
      if l.index.isEmpty then (entries.head?.map (·.offset)).getD endOffset else l.headOffset
    endOffset := endOffset
    weight := l.weight + totalWeight entries
    lastAppended := (entries.getLast?.map (·.key)).or l.lastAppended } : FileLog).announce

/-- Marks the first live key: the head of the index, or what comes next when it is empty. -/
def writeHead : Action FileLog Unit := do
  let l ← get
  let key := l.firstKey.getD (l.lastAppended.elim 0 (· + 1))
  match l.directory.writeHead key with
  | .ok d => set { l with directory := d }
  | .error cause => condemn (.headMarkerWrite cause)

/-- The dead bytes in front are worth reclaiming. -/
def reclaimDue (l : FileLog) : Bool :=
  l.options.reclaimMinDeadBytes ≤ l.headOffset && l.liveBytes ≤ l.headOffset

/-- Copies the live bytes into a fresh data file, if that is due. -/
def reclaim : Action FileLog Unit := do
  let l ← get
  if l.reclaimDue then
    match l.directory.data with
    | none => condemn (.reclaim .notFound)
    | some bytes =>
      let live := (bytes.drop l.headOffset).take l.liveBytes
      if live.length ≠ l.liveBytes then
        condemn (.reclaimCut live.length l.liveBytes)
      set ({ l with
        directory.data := some live
        handle := .attached
        index := l.index.map fun e => { e with offset := e.offset - l.headOffset }
        headOffset := 0
        endOffset := l.liveBytes } : FileLog)

/-- The log without its first `count` index entries; no file is touched. -/
def dropHead (l : FileLog) (count : Nat) : FileLog :=
  let index := l.index.drop count
  announce { l with
    index := index
    headOffset := (index.head?.map (·.offset)).getD l.endOffset
    weight := l.weight - totalWeight (l.index.take count) }

/-- Removes `count` entries from the head: from the index first, then by moving the mark,
then perhaps from the data file. -/
def trimHead (count : Nat) : Action FileLog (List IndexEntry) := do
  let l ← get
  if count = 0 then
    return []
  set (l.dropHead count)
  writeHead
  reclaim
  return l.index.take count

/-- Removes the entries with keys up to `last`. -/
def trimThrough (last : Nat) : Action FileLog (List IndexEntry) := do
  let l ← get
  trimHead (l.index.takeWhile (·.key ≤ last)).length

/-- Removes up to `count` packets from the head, none with a key above `frontier`. -/
def removeFirst (count : Nat) (frontier : Option Nat) : Action FileLog (List Packet) := do
  let l ← get
  Action.decided l.guard
  let entries := (l.index.take count).takeWhile fun e => frontier.all (e.key ≤ ·)
  let packets ← Action.decided ((l.readEntries entries).mapError (·.toError))
  discard <| trimHead entries.length
  return packets

/-- Removes every packet with a key up to `last`. -/
def deleteOldest (last : Nat) : Action FileLog Nat := do
  Action.decided (← get).guard
  return (← trimThrough last).length

/-- The packets from `start` on, as far as they can be read. -/
def readFrom (l : FileLog) (start : Option Nat) : Except Error Record.Reading := do
  l.guard
  let entries : List IndexEntry := match start with
    | some key => l.index.dropWhile (·.key < key)
    | none => l.index
  match entries.head? with
  | some first => l.readRecords first.offset l.endOffset entries.length
  | none => return ⟨[], none⟩

def compact (first last : Nat) : Action FileLog Compaction := do
  Action.decided (← get).guard
  Action.decided (Log.checkRange first last (← get).firstKey)
  let removed ← trimThrough last
  return {
    range := KeyRange.spanning? (removed.map (·.key))
    removed := removed.length
    removedWeight := totalWeight removed
    remainingWeight := (← get).weight }

/-- The first entry that a packet read for it does not match. -/
def firstMismatch? (entries : List IndexEntry) (packets : List Packet) : Option LogDamage :=
  (entries.zip packets).findSome? fun (e, p) =>
    if e.key ≠ p.key ∨ e.weight ≠ p.weight then some (.mismatch e.offset p.key e.key) else none

/-- Fails if the index, its totals and the records are out of step, and then the log is of no
more use. -/
def validate : Action FileLog Unit := do
  let l ← get
  Action.decided l.guard
  match Log.checkSequence (l.index.map (·.key)) (l.index.map (·.weight))
      ⟨l.announced.packets, l.weight⟩ with
  | .error fault => condemn (.sequence fault)
  | .ok () =>
    match l.readEntries l.index with
    | .error fault => condemn (.unreadable fault)
    | .ok packets =>
      match firstMismatch? l.index packets with
      | some damage => condemn damage
      | none => return ()

def close : Action FileLog Unit :=
  modify fun l => ({ l with handle := .closed, index := [], weight := 0 } : FileLog).announce

/-- The log after its directory was changed behind its back; `unlinked` says that its data file
lost its name. -/
def disturbed (l : FileLog) (d : Directory) (unlinked : Bool) : FileLog :=
  { l with
    directory := d
    handle := if unlinked && l.handle == .attached then .orphaned else l.handle }

end FileLog

end GroupReplication
