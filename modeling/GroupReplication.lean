import GroupReplication.Action
import GroupReplication.Backlog.Accumulator
import GroupReplication.Backlog.Basic
import GroupReplication.Backlog.Channel
import GroupReplication.Backlog.Status
import GroupReplication.Bytes
import GroupReplication.ChannelState
import GroupReplication.Checksum
import GroupReplication.Compactor
import GroupReplication.Confirmation
import GroupReplication.Conflict
import GroupReplication.Delivery.Transport
import GroupReplication.Delivery.Worker
import GroupReplication.Error
import GroupReplication.Frame.Basic
import GroupReplication.Frame.Codec
import GroupReplication.Frame.Fault
import GroupReplication.Handshake
import GroupReplication.Log.Basic
import GroupReplication.Log.Directory
import GroupReplication.Log.File
import GroupReplication.Log.Memory
import GroupReplication.Log.Path
import GroupReplication.Log.Record
import GroupReplication.Packet.Basic
import GroupReplication.Packet.Codec
import GroupReplication.PacketLog
import GroupReplication.Rejection
import GroupReplication.Replica.Applier
import GroupReplication.Replica.Basic
import GroupReplication.Retry
import GroupReplication.Rounding
import GroupReplication.Settings
import GroupReplication.Settings.Document
import GroupReplication.Settings.Environment
import GroupReplication.Severity
import GroupReplication.Table
import GroupReplication.Target.Channel
import GroupReplication.Target.Group
import GroupReplication.Target.Session
import GroupReplication.Target.Settlement
import GroupReplication.Text.Utf8
import GroupReplication.Toml.Document
import GroupReplication.Toml.Node
import GroupReplication.Toml.Number
import GroupReplication.Toml.Reader
import GroupReplication.Toml.Text
import GroupReplication.Proofs.Packet.RoundTrip
import GroupReplication.Proofs.Frame.RoundTrip
import GroupReplication.Proofs.Frame.Limits
import GroupReplication.Proofs.Action
import GroupReplication.Proofs.Log.Keys
import GroupReplication.Proofs.Log.Memory
import GroupReplication.Proofs.Log.Record
import GroupReplication.Proofs.Log.File
import GroupReplication.Proofs.Log.Reopen
import GroupReplication.Proofs.Log.Packets
import GroupReplication.Proofs.Log.Calls
import GroupReplication.Proofs.Backlog.Run
import GroupReplication.Proofs.Backlog.Operations
import GroupReplication.Proofs.Backlog.Step
import GroupReplication.Proofs.Backlog.Epoch
import GroupReplication.Proofs.Backlog.Deliveries
import GroupReplication.Proofs.Backlog.Resume
import GroupReplication.Proofs.Target.Apply
import GroupReplication.Proofs.Target.Consume
import GroupReplication.Proofs.Target.Digest
import GroupReplication.Proofs.Target.Reception
import GroupReplication.Proofs.Target.Session
import GroupReplication.Proofs.Target.Ledger
import GroupReplication.Proofs.Target.Acknowledge
import GroupReplication.Proofs.Target.SingleSource
import GroupReplication.Proofs.Backlog.Handout
import GroupReplication.Proofs.Delivery.Accord
import GroupReplication.Proofs.Delivery.Establish
import GroupReplication.Proofs.Delivery.Ship
import GroupReplication.Proofs.Target.Consumed
import GroupReplication.Proofs.Delivery.Wire
import GroupReplication.Proofs.Delivery.Mirror
import GroupReplication.Proofs.Delivery.Exchange
import GroupReplication.Proofs.Delivery.Run
import GroupReplication.Proofs.Delivery.Replication
import GroupReplication.Proofs.Backlog.Frontier
import GroupReplication.Proofs.Backlog.Retained
import GroupReplication.Proofs.Backlog.Weight
import GroupReplication.Proofs.Target.Steady
import GroupReplication.Proofs.Delivery.Resumption
import GroupReplication.Proofs.Log.Agreement
import GroupReplication.Proofs.Log.Restored
import GroupReplication.Proofs.Log.Torn
import GroupReplication.Proofs.Checksum
import GroupReplication.Proofs.Frame.Envelope
import GroupReplication.Proofs.Log.Damage
import GroupReplication.Proofs.Log.Opened
import GroupReplication.Proofs.Replica.Replay
import GroupReplication.Proofs.Target.Replay
import GroupReplication.Proofs.Backlog.Numbering
import GroupReplication.Proofs.Replica.Local
import GroupReplication.Proofs.Target.Upheld
import GroupReplication.Proofs.Target.Exact
import GroupReplication.Proofs.Table
import GroupReplication.Proofs.Target.Answer
import GroupReplication.Proofs.Target.Placed
import GroupReplication.Proofs.Target.Overlap
import GroupReplication.Proofs.Target.Produced
import GroupReplication.Proofs.Target.Sources
import GroupReplication.Proofs.Target.Isolation
import GroupReplication.Proofs.Frame.Burst
import GroupReplication.Proofs.Packet.Spelling
import GroupReplication.Proofs.Frame.Canonical
import GroupReplication.Proofs.Backlog.Handshake
import GroupReplication.Proofs.Backlog.Refusal
import GroupReplication.Proofs.Backlog.Fares
import GroupReplication.Proofs.Backlog.Room
import GroupReplication.Proofs.Backlog.Covered
import GroupReplication.Proofs.Backlog.Discarding
import GroupReplication.Proofs.Backlog.Demand
import GroupReplication.Proofs.Backlog.CatchUp
import GroupReplication.Proofs.Target.Tally
import GroupReplication.Proofs.Target.Bulk
import GroupReplication.Proofs.Target.GivenUp
import GroupReplication.Proofs.Target.TwoPhase
import GroupReplication.Proofs.Target.Refused
import GroupReplication.Proofs.Log.Reclaimed
import GroupReplication.Proofs.Backlog.Compaction
import GroupReplication.Proofs.Frame.Delimited
import GroupReplication.Proofs.Target.Conflicts
import GroupReplication.Proofs.Log.Queue
