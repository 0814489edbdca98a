/-
The bytes of a payload. Numbers have a fixed width; a text, a byte string or a list is its
length in eight bytes and then its items; an option is one byte, 0 or 1, and then its value.
A reader takes what it needs from the front and leaves the rest, so bytes behind a payload
are not looked at.
-/
import GroupReplication.Frame.Fault

namespace GroupReplication.Payload

abbrev Reader := StateT Bytes (Except PayloadFault)

def putNat64 (n : Nat) : Bytes := littleEndian 8 n

def putBytes (bs : Bytes) : Bytes := putNat64 bs.length ++ bs

def putText (s : String) : Bytes := putBytes (Utf8.encode s)

def putOption {α : Type} (put : α → Bytes) : Option α → Bytes
  | none => [0]
  | some a => 1 :: put a

def putList {α : Type} (put : α → Bytes) (xs : List α) : Bytes :=
  putNat64 xs.length ++ xs.flatMap put

/-- The next `n` bytes. -/
def getRaw (n : Nat) : Reader Bytes := fun bs =>
  if n ≤ bs.length then .ok (bs.splitAt n) else .error .endOfInput

def getNat (width : Nat) : Reader Nat := do
  return ofLittleEndian (← getRaw width)

def getBytes : Reader Bytes := do
  getRaw (← getNat 8)

def getText : Reader String := do
  let n ← getNat 8
  let bs ← get
  if n ≤ bs.length then
    let text ← getRaw n
    match Utf8.decode text with
    | .ok s => return s
    | .error fault => throw (.notText fault)
  else throw .textCut

def getOption {α : Type} (item : Reader α) : Reader (Option α) := do
  match ← getNat 1 with
  | 0 => return none
  | 1 => return some (← item)
  | n => throw (.optionTag n)

def getItems {α : Type} (item : Reader α) : Nat → Reader (List α)
  | 0 => return []
  | n + 1 => do
    let x ← item
    return x :: (← getItems item n)

def getList {α : Type} (item : Reader α) : Reader (List α) := do
  getItems item (← getNat 8)

def putWord (w : UInt64) : Bytes := putNat64 w.toNat

def getWord : Reader UInt64 := do
  return UInt64.ofNat (← getNat 8)

def putImage (e : EntryImage) : Bytes :=
  putText e.typeName ++ putText e.uid ++ putWord e.version ++ putBytes e.data
    ++ putOption putWord e.bulk

def getImage : Reader EntryImage := do
  let typeName ← getText
  let uid ← getText
  let version ← getWord
  let data ← getBytes
  let bulk ← getOption getWord
  return { typeName, uid, version, data, bulk }

def putField (f : String × Bytes) : Bytes := putText f.1 ++ putBytes f.2

def getField : Reader (String × Bytes) := do
  let name ← getText
  let value ← getBytes
  return (name, value)

def putChange (c : EntryChange) : Bytes :=
  putText c.typeName ++ putText c.uid ++ putWord c.previousVersion ++ putWord c.version
    ++ putList putField c.fields ++ putOption putWord c.bulk

def getChange : Reader EntryChange := do
  let typeName ← getText
  let uid ← getText
  let previousVersion ← getWord
  let version ← getWord
  let fields ← getList getField
  let bulk ← getOption getWord
  return { typeName, uid, previousVersion, version, fields, bulk }

/-- Inside a list an operation is led by its number in four bytes. -/
def putOperation : EntryOperation → Bytes
  | .write e => littleEndian 4 0 ++ putImage e
  | .update e => littleEndian 4 1 ++ putImage e
  | .take e => littleEndian 4 2 ++ putImage e
  | .change c => littleEndian 4 3 ++ putChange c

def getOperation : Reader EntryOperation := do
  match ← getNat 4 with
  | 0 => return .write (← getImage)
  | 1 => return .update (← getImage)
  | 2 => return .take (← getImage)
  | 3 => return .change (← getChange)
  | n => throw (.operationTag n)

def putTransaction (t : Transaction) : Bytes :=
  putWord t.id ++ putList putOperation t.operations

def getTransaction : Reader Transaction := do
  let id ← getWord
  let operations ← getList getOperation
  return { id, operations }

def putTypeIndex (i : TypeIndex) : Bytes :=
  putText i.typeName ++ putList putText i.indexNames

def getTypeIndex : Reader TypeIndex := do
  let typeName ← getText
  let indexNames ← getList getText
  return { typeName, indexNames }

def putDescriptor (d : TypeDescriptor) : Bytes :=
  putText d.typeName ++ putOption putText d.superType ++ putList putText d.properties

def getDescriptor : Reader TypeDescriptor := do
  let typeName ← getText
  let superType ← getOption getText
  let properties ← getList getText
  return { typeName, superType, properties }

/-- The bytes of a payload do not tell its kind: that travels beside them. -/
def encode : Payload → Bytes
  | .entry (.write e) | .entry (.update e) | .entry (.take e) => putImage e
  | .entry (.change c) => putChange c
  | .transaction _ t => putTransaction t
  | .batch ops => putList putOperation ops
  | .typeIndex i => putTypeIndex i
  | .typeIntroduce d => putDescriptor d

def reader : OperationKind → Reader Payload
  | .write => (.entry <| .write ·) <$> getImage
  | .update => (.entry <| .update ·) <$> getImage
  | .take => (.entry <| .take ·) <$> getImage
  | .change => (.entry <| .change ·) <$> getChange
  | .txnPrepare => .transaction .prepare <$> getTransaction
  | .txnCommit => .transaction .commit <$> getTransaction
  | .txnAbort => .transaction .abort <$> getTransaction
  | .batch => .batch <$> getList getOperation
  | .addTypeIndex => .typeIndex <$> getTypeIndex
  | .introduceType => .typeIntroduce <$> getDescriptor

def decode (kind : OperationKind) (bs : Bytes) : Except PayloadFault Payload :=
  (·.1) <$> (reader kind).run bs

end GroupReplication.Payload
