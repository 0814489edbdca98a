/-
The operations that a group replicates, and the packets that carry them. A packet is one
payload with its place in the group's order; its kind follows from the payload, so the two
can never disagree.
-/
import GroupReplication.Bytes

namespace GroupReplication

inductive OperationKind where
  | write
  | update
  | take
  | change
  | txnPrepare
  | txnCommit
  | txnAbort
  | batch
  | addTypeIndex
  | introduceType
  deriving Repr, DecidableEq

namespace OperationKind

def code : OperationKind → UInt8
  | .write => 1
  | .update => 2
  | .take => 3
  | .change => 4
  | .txnPrepare => 5
  | .txnCommit => 6
  | .txnAbort => 7
  | .batch => 8
  | .addTypeIndex => 9
  | .introduceType => 10

def ofCode? (c : UInt8) : Option OperationKind :=
  [write, update, take, change, txnPrepare, txnCommit, txnAbort, batch, addTypeIndex,
    introduceType].find? (·.code == c)

def name : OperationKind → String
  | .write => "Write"
  | .update => "Update"
  | .take => "Take"
  | .change => "Change"
  | .txnPrepare => "TxnPrepare"
  | .txnCommit => "TxnCommit"
  | .txnAbort => "TxnAbort"
  | .batch => "Batch"
  | .addTypeIndex => "AddTypeIndex"
  | .introduceType => "IntroduceType"

/-- The kinds that touch a single entry. -/
def isEntryOperation : OperationKind → Bool
  | .write | .update | .take | .change => true
  | _ => false

@[simp] theorem ofCode?_code (k : OperationKind) : ofCode? k.code = some k := by
  cases k <;> rfl

theorem code_of_ofCode? {c : UInt8} {k : OperationKind} (h : ofCode? c = some k) :
    k.code = c := by
  simpa using List.find?_some h

end OperationKind

/-- A whole entry, as a write, an update or a take carries it. -/
structure EntryImage where
  typeName : String
  uid : String
  version : UInt64
  data : Bytes
  bulk : Option UInt64
  deriving Repr, DecidableEq

/-- New values for some fields of an entry, computed against `previousVersion`. -/
structure EntryChange where
  typeName : String
  uid : String
  previousVersion : UInt64
  version : UInt64
  fields : List (String × Bytes)
  bulk : Option UInt64
  deriving Repr, DecidableEq

inductive EntryOperation where
  | write (entry : EntryImage)
  | update (entry : EntryImage)
  | take (entry : EntryImage)
  | change (change : EntryChange)
  deriving Repr, DecidableEq

namespace EntryOperation

def kind : EntryOperation → OperationKind
  | .write _ => .write
  | .update _ => .update
  | .take _ => .take
  | .change _ => .change

def uid : EntryOperation → String
  | .write e | .update e | .take e => e.uid
  | .change c => c.uid

def typeName : EntryOperation → String
  | .write e | .update e | .take e => e.typeName
  | .change c => c.typeName

/-- The bulk that the operation belongs to. -/
def bulk : EntryOperation → Option UInt64
  | .write e | .update e | .take e => e.bulk
  | .change c => c.bulk

/-- The same operation outside any bulk. -/
def withoutBulk : EntryOperation → EntryOperation
  | .write e => .write { e with bulk := none }
  | .update e => .update { e with bulk := none }
  | .take e => .take { e with bulk := none }
  | .change c => .change { c with bulk := none }

end EntryOperation

inductive TxnPhase where
  | prepare
  | commit
  | abort
  deriving Repr, DecidableEq

/-- The operations of one phase of a transaction; none for an abort, and none for a commit of
what an earlier prepare carried. -/
structure Transaction where
  id : UInt64
  operations : List EntryOperation
  deriving Repr, DecidableEq

structure TypeIndex where
  typeName : String
  indexNames : List String
  deriving Repr, DecidableEq

structure TypeDescriptor where
  typeName : String
  superType : Option String
  properties : List String
  deriving Repr, DecidableEq

inductive Payload where
  | entry (op : EntryOperation)
  | transaction (phase : TxnPhase) (txn : Transaction)
  | batch (ops : List EntryOperation)
  | typeIndex (index : TypeIndex)
  | typeIntroduce (descriptor : TypeDescriptor)
  deriving Repr, DecidableEq

namespace Payload

def kind : Payload → OperationKind
  | .entry op => op.kind
  | .transaction .prepare _ => .txnPrepare
  | .transaction .commit _ => .txnCommit
  | .transaction .abort _ => .txnAbort
  | .batch _ => .batch
  | .typeIndex _ => .addTypeIndex
  | .typeIntroduce _ => .introduceType

/-- The number of entry operations carried, at least 1 and at most what 32 bits hold. -/
def defaultWeight (p : Payload) : Nat :=
  let count := match p with
    | .transaction _ txn => txn.operations.length
    | .batch ops => ops.length
    | .entry _ | .typeIndex _ | .typeIntroduce _ => 1
  min (max count 1) (2 ^ 32 - 1)

end Payload

/-- A payload with its key, the place in the group's order, and its weight, what keeping it
in a backlog costs. -/
structure Packet where
  key : Nat
  weight : Nat
  transient : Bool
  fromGateway : Bool
  payload : Payload
  deriving Repr, DecidableEq

namespace Packet

def kind (p : Packet) : OperationKind := p.payload.kind

/-- The key fits 64 bits and the weight 32. -/
def Fits (p : Packet) : Prop := p.key < 2 ^ 64 ∧ p.weight < 2 ^ 32

instance (p : Packet) : Decidable p.Fits := inferInstanceAs (Decidable (_ ∧ _))

/-- The weight of several packets. -/
def totalWeight (ps : List Packet) : Nat := (ps.map (·.weight)).foldr (· + ·) 0

@[simp] theorem totalWeight_nil : totalWeight [] = 0 := rfl

@[simp] theorem totalWeight_cons (p : Packet) (ps : List Packet) :
    totalWeight (p :: ps) = p.weight + totalWeight ps := rfl

@[simp] theorem totalWeight_append (ps qs : List Packet) :
    totalWeight (ps ++ qs) = totalWeight ps + totalWeight qs := by
  induction ps with
  | nil => simp
  | cons p ps ih => simp [ih, Nat.add_assoc]

end Packet

end GroupReplication
