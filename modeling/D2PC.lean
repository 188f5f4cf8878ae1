import D2PC.Lib.Table
import D2PC.Lib.Network
import D2PC.Store.Schedule
import D2PC.Store.TwoPhase
import D2PC.Store.Operations
import D2PC.Store.Refusal
import D2PC.Store.Admission
import D2PC.Store.Obstacles
import D2PC.Store.Idle
import D2PC.Store.PreCommits
import D2PC.Properties.Tally
import D2PC.Properties.Convergence
import D2PC.Properties.AtMostOnce
import D2PC.Properties.VoteStability
import D2PC.Properties.Residue
import D2PC.Invariant.Direct
import D2PC.Invariant.Replica
import D2PC.Invariant.Coordinator
import D2PC.Invariant.Client
import D2PC.Properties.Visibility
import D2PC.Properties.Agreement
import D2PC.Invariant.Ops
import D2PC.Properties.ReplyCounts
import D2PC.Store.TapirStore
import D2PC.Store.TapirClient
import D2PC.Transport.Framing
import D2PC.Properties.ReadReplies
import D2PC.Ir.Replica
import D2PC.Ir.Client
import D2PC.Ir.LockService
import D2PC.Ir.LockInvariant
import D2PC.Properties.MutualExclusion
import D2PC.Ir.Merge
import D2PC.Ir.System
import D2PC.Ir.Invariant
import D2PC.Ir.ReplicaSteps
import D2PC.Ir.ViewChange
import D2PC.Ir.ViewChangeSteps
import D2PC.Ir.ClientSteps
import D2PC.Properties.IrDurability
import D2PC.Vr.Log
import D2PC.Vr.Replica
import D2PC.Vr.System
import D2PC.Properties.CommitResult
import D2PC.Properties.Outcomes
import D2PC.Properties.Retransmission
import D2PC.Invariant.Rounds
import D2PC.Properties.Splitting
import D2PC.Invariant.Lists
import D2PC.Properties.Participants
import D2PC.Store.VersionMap
import D2PC.Store.QueueHygiene
import D2PC.Properties.PromiseReply
import D2PC.Properties.CarouselReplies
import D2PC.Properties.UnionReplies
import D2PC.Properties.CascadeVotes
import D2PC.Invariant.LogStates
import D2PC.Properties.CommitMarks
import D2PC.Properties.Pipeline
import D2PC.Properties.CascadeEnds
import D2PC.Protocol.Reads
import D2PC.Properties.MultiRead
import D2PC.Properties.RepeatableReads
import D2PC.Transport.Stream
import D2PC.Transport.Bounds
import D2PC.Transport.ConfigFile
import D2PC.Lib.Register
import D2PC.Store.WeakStore
import D2PC.Store.WeakHistory
import D2PC.Store.WeakCalls
import D2PC.Store.WeakReads
import D2PC.Lib.Timers
import D2PC.Transport.Simulated
import D2PC.Transport.Timeouts
import D2PC.Vr.Buffered
import D2PC.Lib.Views
import D2PC.Vr.Batches
import D2PC.Vr.Views
import D2PC.Vr.ViewReplica
import D2PC.Vr.ViewChanges
import D2PC.Vr.Handlers
import D2PC.Vr.Executions
import D2PC.Vr.Agreement
import D2PC.Vr.Results
import D2PC.Vr.TimeServer
import D2PC.Properties.RecordMerge
import D2PC.Properties.InconsistentOnce
import D2PC.Properties.LockRecovery
import D2PC.Protocol.LogCodec
import D2PC.Invariant.Gathering
import D2PC.Invariant.SlowVotes
import D2PC.Properties.SlowCommit
import D2PC.Invariant.Stores
import D2PC.Properties.Held
import D2PC.Properties.ArrivalOrder
