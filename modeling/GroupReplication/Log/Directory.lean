/-
The directory of a log: a data file of records behind one another, and a file that marks the
first live key. A file is replaced as a whole or not at all.
-/
import GroupReplication.Checksum
import GroupReplication.Log.Path

namespace GroupReplication

structure Directory where
  path : String
  present : Bool
  data : Option Bytes
  head : Option Bytes
  deriving Repr, DecidableEq

namespace Directory

/-- A path at which nothing stands yet. -/
def missing (path : String) : Directory := ⟨path, false, none, none⟩

/-- The place at `path` below a directory that stands, where nothing stands yet. -/
def below (base path : String) : Directory :=
  { missing (Path.join base path) with present := (Path.parts path).all (· == "..") }

def name (d : Directory) : String := Path.name d.path

def headPath (d : Directory) : String := Path.join d.path "head"

/-- The bytes that mark `key` as the first live one. -/
def headMarker (key : Nat) : Bytes :=
  let bytes := littleEndian 8 key
  bytes ++ littleEndian 4 (Checksum.crc32 bytes).toNat

/-- The first live key, if it was ever marked. -/
def readHead (d : Directory) : Except Error (Option Nat) :=
  match d.head with
  | none => .ok none
  | some bs =>
    if bs.length ≠ 12 then
      .error (.logCompromised (.headMarker d.headPath (.length bs.length)))
    else if Checksum.crc32 (bs.take 8) ≠ UInt32.ofNat (ofLittleEndian (bs.drop 8)) then
      .error (.logCompromised (.headMarker d.headPath .checksum))
    else .ok (some (ofLittleEndian (bs.take 8)))

def writeHead (d : Directory) (key : Nat) : Except IoFailure Directory :=
  if d.present then .ok { d with head := some (headMarker key) } else .error .notFound

/-- The directory, which is made if it does not stand yet. -/
def make (d : Directory) : Except IoFailure Directory :=
  if d.present then .ok d
  else match Path.obstacle? d.path with
    | some cause => .error cause
    | none => .ok { d with present := true }

/-- The directory with a data file, which is empty if it has to be made. -/
def create (d : Directory) : Directory :=
  { d with data := some (d.data.getD []) }

end Directory

end GroupReplication
