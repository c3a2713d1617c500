import Ternion.Cluster.Basic
import Ternion.Cluster.Deferred
import Ternion.Cluster.Election
import Ternion.Cluster.Endorsement
import Ternion.Cluster.Grounded
import Ternion.Cluster.Mandate
import Ternion.Cluster.MatchIndex
import Ternion.Cluster.Moves
import Ternion.Cluster.Outgoing
import Ternion.Cluster.PreVote
import Ternion.Cluster.Production
import Ternion.Cluster.Promises
import Ternion.Cluster.Refinement
import Ternion.Cluster.Replicas
import Ternion.Cluster.Safety
import Ternion.Cluster.Tracking
import Ternion.Cluster.Wire
import Ternion.Command.Coordinator
import Ternion.Command.InFlight
import Ternion.Command.Waiters
import Ternion.Consensus.Commitment
import Ternion.Consensus.Ledger
import Ternion.Consensus.Probing
import Ternion.Consensus.Repair
import Ternion.Consensus.Replication
import Ternion.Foundation.Agreement
import Ternion.Foundation.Arrangement
import Ternion.Foundation.Consecutive
import Ternion.Foundation.Desk
import Ternion.Foundation.Eventually
import Ternion.Foundation.Fallible
import Ternion.Foundation.Framing
import Ternion.Foundation.Maps
import Ternion.Foundation.Transition
import Ternion.Linearizability.Checker
import Ternion.Linearizability.Model
import Ternion.Raft.Apply
import Ternion.Raft.Ballot
import Ternion.Raft.Batches
import Ternion.Raft.Batching
import Ternion.Raft.Claims
import Ternion.Raft.Compacted
import Ternion.Raft.Contact
import Ternion.Raft.Course
import Ternion.Raft.Extent
import Ternion.Raft.Frame
import Ternion.Raft.Hints
import Ternion.Raft.Journal
import Ternion.Raft.Journaling
import Ternion.Raft.Log
import Ternion.Raft.Matching
import Ternion.Raft.Office
import Ternion.Raft.Progress
import Ternion.Raft.Start
import Ternion.Raft.Step
import Ternion.Raft.Types
import Ternion.Raft.Words
import Ternion.Runtime.Acknowledged
import Ternion.Runtime.Agreement
import Ternion.Runtime.Drain
import Ternion.Runtime.Durability
import Ternion.Runtime.Exchange
import Ternion.Runtime.Installation
import Ternion.Runtime.Interrupted
import Ternion.Runtime.LockStep
import Ternion.Runtime.Loop
import Ternion.Runtime.Open
import Ternion.Runtime.Recorder
import Ternion.Runtime.Repair
import Ternion.Runtime.StartUp
import Ternion.Runtime.Step
import Ternion.Runtime.Synced
import Ternion.Runtime.Synchronous
import Ternion.Runtime.Turn
import Ternion.Session.Capture
import Ternion.Session.History
import Ternion.Session.Machine
import Ternion.Session.Oracle
import Ternion.Session.Restoration
import Ternion.Session.Transparency
import Ternion.Snapshot.Directory
import Ternion.Snapshot.Format
import Ternion.Snapshot.State
import Ternion.Snapshot.Transfer
import Ternion.Wal.Accepted
import Ternion.Wal.Bytes
import Ternion.Wal.Calls
import Ternion.Wal.Compaction
import Ternion.Wal.Crash
import Ternion.Wal.Faithful
import Ternion.Wal.Intact
import Ternion.Wal.Record
import Ternion.Wal.Rejected
import Ternion.Wal.Replay
import Ternion.Wal.RoundTrip
import Ternion.Wal.Scanners
import Ternion.Wal.Sound
import Ternion.Wal.Store
import Ternion.Wal.Written
