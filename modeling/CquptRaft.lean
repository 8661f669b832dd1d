import CquptRaft.Common.Bytes
import CquptRaft.Common.Command
import CquptRaft.StateMachine.KvStateMachine
import CquptRaft.Node.Validation
import CquptRaft.Node.RaftNode
import CquptRaft.Node.Handlers
import CquptRaft.Node.Snapshot
import CquptRaft.Replication.Replicator
import CquptRaft.Cluster.Member
import CquptRaft.Cluster.Cluster
import CquptRaft.Node.Votes
import CquptRaft.Cluster.ElectionSafety
import CquptRaft.Theory.History
import CquptRaft.Theory.Replica
import CquptRaft.Node.Represents
import CquptRaft.Node.Replicas
import CquptRaft.Node.AppendEntries
import CquptRaft.Replication.Leader
import CquptRaft.Cluster.Simulation
import CquptRaft.Cluster.SimulationMoves
import CquptRaft.Cluster.SimulationElections
import CquptRaft.Cluster.SimulationReplication
import CquptRaft.Cluster.SimulationSnapshots
import CquptRaft.Cluster.SimulationRuns
import CquptRaft.Cluster.LogSafety
import CquptRaft.Node.Recovery
import CquptRaft.Node.Repeats
import CquptRaft.Cluster.Applied
import CquptRaft.Cluster.AppliedSteps
import CquptRaft.Cluster.StateMachineSafety
import CquptRaft.Cluster.Acknowledged
import CquptRaft.Cluster.BoundaryOrder
import CquptRaft.Node.Calls
import CquptRaft.Cluster.Environment
import CquptRaft.Cluster.ReportedTerms
import CquptRaft.Node.Compaction
import CquptRaft.Cluster.Transparency
import CquptRaft.Cluster.NextIndex
import CquptRaft.Theory.Files
import CquptRaft.Theory.Binary
import CquptRaft.Theory.Sorting
import CquptRaft.Storage.Segment
import CquptRaft.Storage.RaftStorage
import CquptRaft.Storage.Staging
import CquptRaft.Storage.Publishing
import CquptRaft.Storage.Loading
import CquptRaft.Storage.RoundTrip
import CquptRaft.Storage.Atomicity
import CquptRaft.Theory.Volumes
import CquptRaft.Theory.Checksum
import CquptRaft.Storage.SnapshotFiles
import CquptRaft.Storage.SnapshotInstall
import CquptRaft.Storage.InstallSteps
import CquptRaft.Storage.SnapshotLabels
import CquptRaft.Replication.CatchUp
import CquptRaft.Replication.ReplicateOnce
import CquptRaft.StateMachine.SnapshotCodec
import CquptRaft.Node.ElectionTimer
import CquptRaft.Node.InStep
import CquptRaft.Theory.Agenda
import CquptRaft.Theory.Threads
import CquptRaft.Runtime.MinHeapTimer
import CquptRaft.Runtime.TimerRuns
import CquptRaft.Runtime.TimerStops
import CquptRaft.Storage.Scan
import CquptRaft.Storage.Trusted
import CquptRaft.Storage.Legacy
import CquptRaft.Storage.TornTail
import CquptRaft.Storage.SnapshotListing
import CquptRaft.Storage.SnapshotPublish
import CquptRaft.Storage.SnapshotPrune
import CquptRaft.Storage.Damage
import CquptRaft.Cluster.SavedTerms
import CquptRaft.Cluster.UpToDate
import CquptRaft.Cluster.Retention
import CquptRaft.Cluster.ReplicatorCalls
import CquptRaft.Cluster.MatchIndex
import CquptRaft.Cluster.Refusals
import CquptRaft.Theory.Sessions
import CquptRaft.Cluster.Leaders
import CquptRaft.Cluster.Positions
import CquptRaft.Service.KvService
import CquptRaft.Service.ClientSessions
import CquptRaft.Runtime.ThreadPool
import CquptRaft.Replication.Majority
import CquptRaft.Cluster.Progress
import CquptRaft.Theory.Traces
import CquptRaft.Storage.SnapshotRefinement
import CquptRaft.Cluster.SnapshotSafety
import CquptRaft.Node.Timers
import CquptRaft.Node.Awake
import CquptRaft.Storage.DataDirectory
import CquptRaft.Cluster.Campaigns
import CquptRaft.Cluster.Electable
import CquptRaft.Cluster.RoundSteps
import CquptRaft.Cluster.Availability
import CquptRaft.Node.SnapshotWorker
