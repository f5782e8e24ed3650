import RvKeyValue.Base.Ballot
import RvKeyValue.Base.Hops
import RvKeyValue.Base.Overwrite
import RvKeyValue.Base.Prefix
import RvKeyValue.Base.Quorum
import RvKeyValue.Base.Run
import RvKeyValue.Base.Simulation
import RvKeyValue.Base.Utf8
import RvKeyValue.Base.Utf8Text
import RvKeyValue.Base.Word
import RvKeyValue.Base.JsonText
import RvKeyValue.Base.JsonValue
import RvKeyValue.Base.Matching
import RvKeyValue.Base.ReplicatedLog.State
import RvKeyValue.Base.ReplicatedLog.Invariant
import RvKeyValue.Base.ReplicatedLog.Safety
import RvKeyValue.Raft.Types
import RvKeyValue.Raft.Membership
import RvKeyValue.Raft.Node
import RvKeyValue.Raft.Progress
import RvKeyValue.Raft.Election
import RvKeyValue.Raft.Replication
import RvKeyValue.Raft.Log
import RvKeyValue.Raft.Append
import RvKeyValue.Raft.Requests
import RvKeyValue.Node.Operation
import RvKeyValue.Node.Recovery
import RvKeyValue.Node.Terms
import RvKeyValue.Node.Coherence
import RvKeyValue.Node.Durability
import RvKeyValue.Node.Replay
import RvKeyValue.Node.Votes
import RvKeyValue.Node.Exchange
import RvKeyValue.Node.CatchUp
import RvKeyValue.Node.Contiguity
import RvKeyValue.Cluster.Call
import RvKeyValue.Node.ApplyLoop
import RvKeyValue.Node.LogRules
import RvKeyValue.Node.Compaction
import RvKeyValue.Node.Roles
import RvKeyValue.Store.Command
import RvKeyValue.Store.Machine
import RvKeyValue.Store.Wire
import RvKeyValue.Store.Restore
import RvKeyValue.Store.Agreement
import RvKeyValue.Store.Admission
import RvKeyValue.Store.StableState
import RvKeyValue.Cluster.Server
import RvKeyValue.Cluster.System
import RvKeyValue.Cluster.Aligned
import RvKeyValue.Cluster.DurableVotes
import RvKeyValue.Cluster.Tally
import RvKeyValue.Cluster.Campaigns
import RvKeyValue.Cluster.Refinement
import RvKeyValue.Cluster.Steady
import RvKeyValue.Cluster.Applied
import RvKeyValue.Cluster.ElectionSafety
import RvKeyValue.Cluster.ElectionSections
import RvKeyValue.Cluster.Operations
import RvKeyValue.Cluster.Proposals
import RvKeyValue.Cluster.Fleet
import RvKeyValue.Cluster.LeaderHints
import RvKeyValue.Cluster.LeaderSections
import RvKeyValue.Cluster.Watched
import RvKeyValue.Cluster.Candidacy
import RvKeyValue.Cluster.FollowerSections
import RvKeyValue.Cluster.Headcount
import RvKeyValue.Cluster.Rounds
import RvKeyValue.Cluster.TermOrder
import RvKeyValue.Cluster.Calls
import RvKeyValue.Cluster.Simulation
import RvKeyValue.Cluster.Invariant
import RvKeyValue.Cluster.Bookkeeping
import RvKeyValue.Cluster.Safety
import RvKeyValue.Cluster.Sequential
import RvKeyValue.Cluster.Delivery
import RvKeyValue.Cluster.LeaderCompleteness
import RvKeyValue.Cluster.Rules
import RvKeyValue.Cluster.Enrolled
import RvKeyValue.Cluster.Partition
import RvKeyValue.Cluster.Provenance
import RvKeyValue.Cluster.Tenure
import RvKeyValue.Cluster.Office
import RvKeyValue.Cluster.Continuation
import RvKeyValue.Cluster.Availability
import RvKeyValue.Cluster.Words
import RvKeyValue.Cluster.Disk
import RvKeyValue.Service.Handler
import RvKeyValue.Service.System
import RvKeyValue.Service.Steps
import RvKeyValue.Service.Snapshots
import RvKeyValue.Service.AtMostOnce
import RvKeyValue.Service.Reads
import RvKeyValue.Service.Forwarding
import RvKeyValue.Service.FixedMembership
import RvKeyValue.Service.Replicas
import RvKeyValue.Program.Loops
import RvKeyValue.Program.Steps
import RvKeyValue.Program.Elections
import RvKeyValue.Program.Timing
