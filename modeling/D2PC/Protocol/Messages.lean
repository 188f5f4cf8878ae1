import D2PC.Types
import D2PC.Lib.Network

/-!
# Messages and addresses

The messages of `lr-proto.proto` and `commit-proto.proto` that are sent or handled, with
their fields. A field that a sender does not set has the default of the format: zero,
`false`, the empty list, or the enumeration value with the number zero.
-/

namespace D2PC

/-! ### Messages of the participants -/

structure GetData where
  tid : TxnId
  keys : List Key

structure ReadKeyVersion where
  key : Key
  value : Value := ""
  timestamp : ℕ := 0

structure GetDataReply where
  tid : TxnId
  keys : List ReadKeyVersion
  replicaId : ℕ
  state : ReplyState

/-- An entry of a read set on the wire. -/
structure ReadSetEntry where
  key : Key
  replica : ℕ
  readTs : ℕ

structure PrepareTransaction where
  tid : TxnId
  wset : List (Key × Value) := []
  rset : List ReadSetEntry := []
  participants : List Shard := []
  primaryShard : ℕ := 0
  mode : CommitMode := .slow

structure PrepareTransactionReply where
  tid : TxnId
  state : LogEntryState
  shard : Shard
  timestamp : ℕ
  reachFaultTolerance : ℕ := 0
  replica : ℕ := 0

structure LogEntryProto where
  wset : List (Key × Value)
  state : LogEntryState
  timestamp : ℕ
  term : ℕ
  lsn : ℕ
  txnId : TxnId

structure ReplicateTransaction where
  txnLog : LogEntryProto
  term : ℕ
  replicaId : ℕ
  primaryCoordinator : ℕ
  participants : List Shard
  primaryShard : ℕ
  vote : LogEntryState
  hasPreCommit : Bool

structure ReplicateTransactionReply where
  lsn : ℕ
  term : ℕ
  replicaId : ℕ
  txnId : TxnId

structure ReplicateCommit where
  tid : TxnId
  lsn : ℕ
  state : LogEntryState
  timestamp : ℕ

structure ParallelModeCommit where
  tid : TxnId
  participants : List Shard

structure ParallelModeCommitReply where
  tid : TxnId
  state : LogEntryState
  timestamp : ℕ

structure CommitMsg where
  tid : TxnId
  state : LogEntryState
  timestamp : ℕ := 0

/-! ### Messages of the coordinators -/

structure ReplicateReplyAndVote where
  tid : TxnId
  shard : Shard
  replica : ℕ
  vote : CommitResult := .commit
  participants : List Shard
  primaryShard : ℕ
  primaryCoordinator : ℕ
  timestamp : ℕ := 0
  hasPreCommit : Bool

structure BypassLeaderReply where
  tid : TxnId
  shard : Shard
  replica : ℕ

structure BypassLeaderReplyUnion where
  tid : TxnId
  shards : List Shard
  replica : ℕ

structure NotifyDependenciesAreCleared where
  tid : TxnId
  shard : Shard

structure NotifyDecision where
  tid : TxnId
  state : CommitResult
  timestamp : ℕ

structure ReplicateDecision where
  tid : TxnId
  state : CommitResult
  timestamp : ℕ

structure ReplyDecision where
  tid : TxnId
  coordinatorId : ℕ
  timestamp : ℕ

structure Vote where
  tid : TxnId
  vote : CommitResult := .commit
  shard : Shard := 0
  participants : List Shard := []
  primaryShard : ℕ := 0
  primaryCoordinator : ℕ := 0
  replica : ℕ := 0
  timestamp : ℕ := 0

structure NotifyDecisionToPrimary where
  tid : TxnId
  state : CommitResult
  participants : List Shard
  primaryShard : ℕ
  timestamp : ℕ

structure NotifyReplicateResult where
  tid : TxnId
  replicateSuccess : Bool
  timestamp : ℕ

structure RequestCommitResult where
  tid : TxnId
  participants : List Shard
  primaryShard : ℕ := 0
  shard : Shard := 0

/-- A message on the wire. -/
inductive Msg where
  | getData (m : GetData)
  | getDataReply (m : GetDataReply)
  | prepareTransaction (m : PrepareTransaction)
  | prepareTransactionReply (m : PrepareTransactionReply)
  | replicateTransaction (m : ReplicateTransaction)
  | replicateTransactionReply (m : ReplicateTransactionReply)
  | replicateCommit (m : ReplicateCommit)
  | parallelModeCommit (m : ParallelModeCommit)
  | parallelModeCommitReply (m : ParallelModeCommitReply)
  | commit (m : CommitMsg)
  | replicateReplyAndVote (m : ReplicateReplyAndVote)
  | bypassLeaderReply (m : BypassLeaderReply)
  | bypassLeaderReplyUnion (m : BypassLeaderReplyUnion)
  | notifyDependenciesAreCleared (m : NotifyDependenciesAreCleared)
  | notifyDecision (m : NotifyDecision)
  | replicateDecision (m : ReplicateDecision)
  | replyDecision (m : ReplyDecision)
  | vote (m : Vote)
  | notifyDecisionToPrimary (m : NotifyDecisionToPrimary)
  | notifyReplicateResult (m : NotifyReplicateResult)
  | requestCommitResult (m : RequestCommitResult)

deriving instance DecidableEq for GetData, ReadKeyVersion, GetDataReply, ReadSetEntry,
  PrepareTransaction, PrepareTransactionReply, LogEntryProto, ReplicateTransaction,
  ReplicateTransactionReply, ReplicateCommit, ParallelModeCommit, ParallelModeCommitReply,
  CommitMsg, ReplicateReplyAndVote, BypassLeaderReply, BypassLeaderReplyUnion,
  NotifyDependenciesAreCleared, NotifyDecision, ReplicateDecision, ReplyDecision, Vote,
  NotifyDecisionToPrimary, NotifyReplicateResult, RequestCommitResult, Msg

/-! ### Processes and addresses -/

/-- The processes. The client side of a transaction is a process of its own: a client runs
its transactions one after the other, and everything it keeps between them is found by the
transaction's number. -/
inductive Node where
  | client (tid : TxnId)
  | replica (shard : Shard) (idx : ℕ)
  | coordinator (idx : ℕ)
  deriving DecidableEq, Repr

/-- The sockets. A client has one for each shard. The sockets through which a server only
sends are read by nobody: only its main transport runs an event loop. -/
inductive Addr where
  | client (tid : TxnId) (shard : Shard)
  | replica (shard : Shard) (idx : ℕ)
  | coordinator (idx : ℕ)
  | sendOnly
  deriving DecidableEq, Repr

abbrev Pkt := Packet Addr Msg

end D2PC
