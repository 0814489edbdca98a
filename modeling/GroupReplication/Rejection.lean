/-
The frame by which a peer learns of an error.
-/
import GroupReplication.Error

namespace GroupReplication.Error

def rejectCode : Error → RejectCode
  | .sourceAlreadyAttached .. => .sourceAlreadyAttached
  | .resumeKeyCompacted .. => .resumeKeyCompacted
  | .unknownMember _ => .unknownGroup
  | .protocol _ | .channel _ | .handshake _ => .protocol
  | _ => .internal

def rejection (e : Error) : Frame := .reject e.rejectCode e.message

end GroupReplication.Error
