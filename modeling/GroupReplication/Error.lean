/-
Everything that can go wrong in replication, as causes. The wording of each cause stands in
its `message`. Collaborators outside the library (transports, appliers, callers) report in
words of their own: those are the `reported` causes.
-/
import GroupReplication.ChannelState
import GroupReplication.Frame.Fault

namespace GroupReplication

/-- How the medium below a log or a link failed. -/
inductive IoFailure where
  | notFound
  | timedOut
  | interrupted
  | connectionRefused
  | connectionReset
  | connectionAborted
  | notConnected
  | wouldBlock
  | other (name : String)
  deriving Repr, DecidableEq

namespace IoFailure

def name : IoFailure → String
  | .notFound => "NotFound"
  | .timedOut => "TimedOut"
  | .interrupted => "Interrupted"
  | .connectionRefused => "ConnectionRefused"
  | .connectionReset => "ConnectionReset"
  | .connectionAborted => "ConnectionAborted"
  | .notConnected => "NotConnected"
  | .wouldBlock => "WouldBlock"
  | .other name => name

def ofName (name : String) : IoFailure :=
  let known := [notFound, timedOut, interrupted, connectionRefused, connectionReset,
    connectionAborted, notConnected, wouldBlock]
  (known.find? (·.name == name)).getD (.other name)

/-- The failures that pass by themselves. -/
def isTransient : IoFailure → Bool
  | .notFound | .other _ => false
  | _ => true

end IoFailure

/-- How a log's packets disagree with one another or with the totals kept beside them. -/
inductive SequenceFault where
  | notIncreasing (key previous : Nat)
  | gap (previous key : Nat)
  | size (tracked present : Nat)
  | weight (tracked present : Nat)
  deriving Repr, DecidableEq

namespace SequenceFault

def message : SequenceFault → String
  | .notIncreasing key previous => s!"key {key} follows {previous} (not increasing)"
  | .gap previous key => s!"gap between keys {previous} and {key}"
  | .size tracked present => s!"tracked size {tracked} but {present} packets present"
  | .weight tracked present => s!"tracked weight {tracked} but packets sum to {present}"

end SequenceFault

/-- Bytes at the start of a record that no torn write explains. -/
inductive Corruption where
  | header (version type : UInt8)
  | overrun (length available : Nat)
  deriving Repr, DecidableEq

namespace Corruption

def message : Corruption → String
  | .header version type =>
    s!"invalid record header (version {version}, type 0x" ++ FrameFault.byteText type ++ ")"
  | .overrun length available =>
    s!"length {length} overruns the {available} bytes left but valid records follow"

end Corruption

/-- Why a record that the index lists cannot be read back. -/
inductive RecordFault where
  | missing (offset : Nat)
  | corrupt (offset : Nat) (cause : Corruption)
  | undecodable (cause : FrameFault)
  | unavailable (cause : IoFailure)
  deriving Repr, DecidableEq

/-- What makes one log refuse all further use. -/
inductive LogDamage where
  | sequence (cause : SequenceFault)
  | corruptRecord (offset : Nat) (cause : Corruption)
  | undecodableRecord (offset : Nat) (cause : FrameFault)
  | headMarkerWrite (cause : IoFailure)
  | reclaim (cause : IoFailure)
  | reclaimCut (copied live : Nat)
  | unreadable (cause : RecordFault)
  | mismatch (offset held indexed : Nat)
  deriving Repr, DecidableEq

/-- What is wrong with the file that marks a log's first live key. -/
inductive HeadMarkerFault where
  | length (found : Nat)
  | checksum
  deriving Repr, DecidableEq

inductive CompromiseCause where
  | log (name : String) (damage : LogDamage)
  | headMarker (path : String) (fault : HeadMarkerFault)
  | recordMissing (offset : Nat)
  | recordCorrupt (offset : Nat) (cause : Corruption)
  | reported (text : String)
  deriving Repr, DecidableEq

inductive StorageCause where
  | closed (log : String)
  | outOfOrder (key previous : Nat)
  | emptyRange (first last : Nat)
  | rangeBehindHead (first last head : Nat)
  | reported (text : String)
  deriving Repr, DecidableEq

namespace StorageCause

def message : StorageCause → String
  | .closed log => "packet log " ++ log ++ " is closed"
  | .outOfOrder key previous => s!"append key {key} does not follow {previous}"
  | .emptyRange first last => s!"invalid compaction range [{first}, {last}]"
  | .rangeBehindHead first last head =>
    s!"compaction range [{first}, {last}] does not start at head {head}"
  | .reported text => text

end StorageCause

inductive HandshakeCause where
  | keyOutOfRange (key : Nat)
  | keyNeverIssued (key issued : Nat)
  | startKeyZero
  | resumeElsewhere (group : String) (start lastConfirmed : Nat)
  | keptResuming
  | reported (text : String)
  deriving Repr, DecidableEq

namespace HandshakeCause

def message : HandshakeCause → String
  | .keyOutOfRange key => s!"last confirmed key {key} out of range"
  | .keyNeverIssued key issued =>
    s!"target confirmed key {key} but source only issued up to {issued}"
  | .startKeyZero => "start key 0 is never issued"
  | .resumeElsewhere group start lastConfirmed =>
    s!"group {group}: source resumes at {start} but last confirmed key is {lastConfirmed}"
  | .keptResuming => "target kept resuming after a compacted resume key"
  | .reported text => text

end HandshakeCause

/-- The frame that a reply answers. -/
inductive Exchange where
  | connect
  | handshakeReply
  | batch
  deriving Repr, DecidableEq

namespace Exchange

def name : Exchange → String
  | .connect => "connect"
  | .handshakeReply => "handshake reply"
  | .batch => "batch"

end Exchange

inductive ChannelCause where
  | transition (current next : ChannelState)
  | replyOutOfPlace (group : String) (state : ChannelState)
  | packetOutOfPlace (group : String) (key : Nat) (state : ChannelState)
  | gap (group : String) (expected key : Nat)
  /-- Behind the last key of 64 bits there is none to expect. -/
  | keyOverflow
  | notActive (target group : String) (state : ChannelState)
  | neverSent (target : String) (key lastSent : Nat)
  | notRegistered (target group : String)
  | notEstablished (source target : String)
  | rejected (exchange : Exchange) (text : String)
  | unexpectedReply (type : FrameType) (exchange : Exchange)
  | reported (text : String)
  deriving Repr, DecidableEq

namespace ChannelCause

def message : ChannelCause → String
  | .transition current next =>
    "invalid channel transition " ++ current.name ++ " -> " ++ next.name
  | .replyOutOfPlace group state => s!"group {group}: handshake reply while " ++ state.name
  | .packetOutOfPlace group key state =>
    s!"group {group}: packet {key} received while " ++ state.name
  | .gap group expected key =>
    s!"group {group}: gap in delivery, expected key {expected} got {key}"
  | .keyOverflow => "attempt to add with overflow"
  | .notActive target group state => s!"channel {target} of group {group} is " ++ state.name
  | .neverSent target key lastSent =>
    s!"channel {target} acknowledged key {key} beyond last sent {lastSent}"
  | .notRegistered target group => s!"no channel {target} registered with group {group}"
  | .notEstablished source target => s!"channel {source} -> {target} not established"
  | .rejected exchange text => "target rejected " ++ exchange.name ++ ": " ++ text
  | .unexpectedReply type exchange =>
    "unexpected " ++ type.name ++ " reply to " ++ exchange.name
  | .reported text => text

end ChannelCause

inductive TransportCause where
  | severed
  | notConnected
  | targetFailed (exchange : Exchange) (text : String)
  /-- `text` is the message of the error that the batch met. -/
  | batchFailed (firstKey : Nat) (target text : String)
  | reported (text : String)
  deriving Repr, DecidableEq

namespace TransportCause

def message : TransportCause → String
  | .severed => "loopback link severed"
  | .notConnected => "not connected"
  | .targetFailed exchange text => "target failed " ++ exchange.name ++ ": " ++ text
  | .batchFailed firstKey target text => s!"batch at key {firstKey} to {target} failed: {text}"
  | .reported text => text

end TransportCause

inductive MemberCause where
  | source (name group : String)
  | target (name group : String)
  | reported (text : String)
  deriving Repr, DecidableEq

namespace MemberCause

def message : MemberCause → String
  | .source name group => s!"source {name} is not a member of group {group}"
  | .target name group => s!"target {name} is not a member of group {group}"
  | .reported text => text

end MemberCause

/-- Why a text gives no settings. -/
inductive SettingsFault where
  | notADocument
  | field (path : List String)
  deriving Repr, DecidableEq

namespace SettingsFault

def message : SettingsFault → String
  | .notADocument => "not a TOML document"
  | .field path => "unexpected value of " ++ ".".intercalate path

end SettingsFault

inductive ConfigCause where
  | groupUnnamed
  | maxWeightZero
  | maxBatchSizeZero
  | intervalZero
  | passLimitZero
  | noReconnectAttempts
  | reconnectDelays
  | unreadable (fault : SettingsFault)
  | compactorRunning
  | reported (text : String)
  deriving Repr, DecidableEq

namespace ConfigCause

def message : ConfigCause → String
  | .groupUnnamed => "group.name must not be empty"
  | .maxWeightZero => "backlog.max_weight must be at least 1"
  | .maxBatchSizeZero => "backlog.max_batch_size must be at least 1"
  | .intervalZero => "compaction.interval must be positive"
  | .passLimitZero => "compaction.max_packets_per_pass must be at least 1"
  | .noReconnectAttempts => "delivery.reconnect_attempts must be at least 1"
  | .reconnectDelays => "delivery.reconnect_initial_delay exceeds reconnect_max_delay"
  | .unreadable fault => "Invalid replication config: " ++ fault.message
  | .compactorRunning => "Compactor already running"
  | .reported text => text

end ConfigCause

inductive RetryableCause where
  | refused (exchange : Exchange) (text : String)
  | reported (text : String)
  deriving Repr, DecidableEq

namespace RetryableCause

def message : RetryableCause → String
  | .refused exchange text => "target refused " ++ exchange.name ++ ": " ++ text
  | .reported text => text

end RetryableCause

inductive Error where
  | protocol (cause : FrameFault)
  | sourceAlreadyAttached (group active attempted : String)
  | storageFull (group : String) (weight threshold : Nat)
  | storage (cause : StorageCause)
  | logCompromised (cause : CompromiseCause)
  | resumeKeyCompacted (requested earliest : Nat)
  | handshake (cause : HandshakeCause)
  | channel (cause : ChannelCause)
  | transport (cause : TransportCause)
  | unknownMember (cause : MemberCause)
  | apply (text : String)
  | config (cause : ConfigCause)
  | io (cause : IoFailure)
  | retryable (cause : RetryableCause)
  deriving Repr, DecidableEq

namespace RecordFault

/-- The error that a reader of the record meets. -/
def toError : RecordFault → Error
  | .missing offset => .logCompromised (.recordMissing offset)
  | .corrupt offset cause => .logCompromised (.recordCorrupt offset cause)
  | .undecodable cause => .protocol cause
  | .unavailable cause => .io cause

def message : RecordFault → String
  | .missing offset => s!"Packet log compromised: record at offset {offset} missing"
  | .corrupt offset cause =>
    s!"Packet log compromised: record at offset {offset}: " ++ cause.message
  | .undecodable cause => "Protocol error: " ++ cause.message
  | .unavailable cause => "I/O error: " ++ cause.name

end RecordFault

namespace LogDamage

def message : LogDamage → String
  | .sequence cause => cause.message
  | .corruptRecord offset cause => s!"record at offset {offset}: " ++ cause.message
  | .undecodableRecord offset cause =>
    s!"record at offset {offset}: Protocol error: " ++ cause.message
  | .headMarkerWrite cause => "head marker write failed: I/O error: " ++ cause.name
  | .reclaim cause => "data file rewrite failed: I/O error: " ++ cause.name
  | .reclaimCut copied live =>
    s!"data file rewrite failed: Storage error: rewrite copied {copied} of {live} live bytes"
  | .unreadable cause => "unreadable record: " ++ cause.message
  | .mismatch offset held indexed =>
    s!"record at offset {offset} holds key {held} but index says {indexed}"

end LogDamage

namespace CompromiseCause

def message : CompromiseCause → String
  | .log name damage => name ++ ": " ++ damage.message
  | .headMarker path (.length n) => s!"head marker {path} has {n} bytes"
  | .headMarker path .checksum => s!"head marker {path} checksum mismatch"
  | .recordMissing offset => s!"record at offset {offset} missing"
  | .recordCorrupt offset cause => s!"record at offset {offset}: " ++ cause.message
  | .reported text => text

end CompromiseCause

namespace Error

def name : Error → String
  | .protocol _ => "Protocol"
  | .sourceAlreadyAttached .. => "SourceAlreadyAttached"
  | .storageFull .. => "StorageFull"
  | .storage _ => "Storage"
  | .logCompromised _ => "LogCompromised"
  | .resumeKeyCompacted .. => "ResumeKeyCompacted"
  | .handshake _ => "Handshake"
  | .channel _ => "Channel"
  | .transport _ => "Transport"
  | .unknownMember _ => "UnknownMember"
  | .apply _ => "Apply"
  | .config _ => "Config"
  | .io _ => "Io"
  | .retryable _ => "Retryable"

def message : Error → String
  | .protocol cause => "Protocol error: " ++ cause.message
  | .sourceAlreadyAttached group active attempted =>
    s!"Group {group}: source {active} already attached, rejected {attempted}"
  | .storageFull group weight threshold =>
    s!"Group {group}: backlog full (weight {weight}, threshold {threshold})"
  | .storage cause => "Storage error: " ++ cause.message
  | .logCompromised cause => "Packet log compromised: " ++ cause.message
  | .resumeKeyCompacted requested earliest =>
    s!"Resume key {requested} already compacted (earliest retained {earliest})"
  | .handshake cause => "Handshake error: " ++ cause.message
  | .channel cause => "Channel error: " ++ cause.message
  | .transport cause => "Transport error: " ++ cause.message
  | .unknownMember cause => "Unknown member: " ++ cause.message
  | .apply text => "Apply error: " ++ text
  | .config cause => "Configuration error: " ++ cause.message
  | .io cause => "I/O error: " ++ cause.name
  | .retryable cause => "Retryable error: " ++ cause.message

/-- The log is of no further use: the group has to be rebuilt by a full resync. -/
def isFatal : Error → Bool
  | .storage _ | .logCompromised _ | .io _ => true
  | _ => false

/-- Another attempt after a pause may succeed. A channel failure is cleared by a fresh
handshake. -/
def isRetryable : Error → Bool
  | .retryable _ | .transport _ | .resumeKeyCompacted .. | .channel _ => true
  | .io cause => cause.isTransient
  | _ => false

end Error

end GroupReplication
